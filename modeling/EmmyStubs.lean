import EmmyStubs.Text.Blank
import EmmyStubs.Text.Cut
import EmmyStubs.Text.Sigma
import EmmyStubs.Text.Fold
import EmmyStubs.Text.Printable
import EmmyStubs.Text.DecimalDigit
import EmmyStubs.Text.Quoted
import EmmyStubs.Text.Base64
import EmmyStubs.Number.Binary
import EmmyStubs.Number.Residue
import EmmyStubs.Number.Shortest
import EmmyStubs.Number.Numeral
import EmmyStubs.Calendar
import EmmyStubs.Value
import EmmyStubs.Json
import EmmyStubs.Yaml.Cursor
import EmmyStubs.Yaml.Token
import EmmyStubs.Yaml.Timestamp
import EmmyStubs.Yaml.Scalar
import EmmyStubs.Yaml.Node
import EmmyStubs.Yaml.Merge
import EmmyStubs.Yaml.SetOrder
import EmmyStubs.Yaml.Cell
import EmmyStubs.Yaml
import EmmyStubs.Files.Path
import EmmyStubs.Files.Tree
import EmmyStubs.Abort
import EmmyStubs.Log
import EmmyStubs.Graph.Descriptor
import EmmyStubs.Graph.Basic
import EmmyStubs.Graph.Shape
import EmmyStubs.Cache
import EmmyStubs.Lua
import EmmyStubs.Stub.Basic
import EmmyStubs.Stub.Signature
import EmmyStubs.Stub.Printer
import EmmyStubs.Session.Action
import EmmyStubs.Mapping.Name
import EmmyStubs.Mapping.Union
import EmmyStubs.Mapping.Options
import EmmyStubs.Mapping.Signature
import EmmyStubs.Mapping.Compute
import EmmyStubs.Mapping.Walk
import EmmyStubs.Members.Name
import EmmyStubs.Members.Fields
import EmmyStubs.Members.Methods
import EmmyStubs.Members.Bases
import EmmyStubs.Dump.Identity
import EmmyStubs.Dump.Error
import EmmyStubs.Dump.Reference
import EmmyStubs.Dump.Entry
import EmmyStubs.Dump
import EmmyStubs.Declaration.Failure
import EmmyStubs.Declaration.Basic
import EmmyStubs.Declaration.Group
import EmmyStubs.Selection.Glob
import EmmyStubs.Selection.Filter
import EmmyStubs.Index
import EmmyStubs.Template
import EmmyStubs.Output
import EmmyStubs.Settings
import EmmyStubs.Run.World
import EmmyStubs.Run.Generate
import EmmyStubs.Command.Arguments
import EmmyStubs.Command
import EmmyStubs.Main
import EmmyStubs.Proofs.Sharing
import EmmyStubs.Proofs.Dependencies
import EmmyStubs.Proofs.Uncached
import EmmyStubs.Proofs.Caches
import EmmyStubs.Proofs.Walks
import EmmyStubs.Proofs.History
import EmmyStubs.Proofs.Links
import EmmyStubs.Proofs.Buckets
import EmmyStubs.Proofs.Traits
import EmmyStubs.Proofs.Translations
import EmmyStubs.Proofs.Workers
import EmmyStubs.Proofs.Parallel
import EmmyStubs.Proofs.Trees
import EmmyStubs.Proofs.Parts
import EmmyStubs.Proofs.Groups
import EmmyStubs.Proofs.Outcomes
import EmmyStubs.Proofs.Turns
import EmmyStubs.Proofs.Keeping
import EmmyStubs.Proofs.Loading
import EmmyStubs.Proofs.Selecting
import EmmyStubs.Proofs.Agreement
import EmmyStubs.Proofs.Completing
import EmmyStubs.Proofs.Isolation
import EmmyStubs.Proofs.Brackets
import EmmyStubs.Proofs.Expressions
import EmmyStubs.Proofs.Patterns
import EmmyStubs.Proofs.Precedence
import EmmyStubs.Proofs.Spellings
import EmmyStubs.Proofs.Parsing
import EmmyStubs.Proofs.Resolving
import EmmyStubs.Proofs.Structural
import EmmyStubs.Proofs.Composing
import EmmyStubs.Proofs.Linking
import EmmyStubs.Proofs.Reordering
import EmmyStubs.Proofs.Naming
import EmmyStubs.Proofs.Confining
import EmmyStubs.Proofs.Footprint
import EmmyStubs.Proofs.Nesting
import EmmyStubs.Proofs.Tables
import EmmyStubs.Proofs.Reaching
import EmmyStubs.Proofs.Slots
import EmmyStubs.Proofs.Onward
import EmmyStubs.Proofs.Conserving
import EmmyStubs.Proofs.Requests
import EmmyStubs.Proofs.Lines
import EmmyStubs.Proofs.Unhiding
import EmmyStubs.Proofs.Fields
import EmmyStubs.Proofs.Reports
import EmmyStubs.Proofs.Skipping
import EmmyStubs.Proofs.Calling
import EmmyStubs.Proofs.Listing
import EmmyStubs.Proofs.Chains
import EmmyStubs.Proofs.Cycles
import EmmyStubs.Proofs.Filtering
import EmmyStubs.Proofs.Parameters
import EmmyStubs.Proofs.Silence
import EmmyStubs.Proofs.Bookkeeping
import EmmyStubs.Proofs.Enclosing
import EmmyStubs.Proofs.Frames
import EmmyStubs.Proofs.Inferring
import EmmyStubs.Proofs.Linewise
import EmmyStubs.Proofs.Annotations
import EmmyStubs.Proofs.Blocks
import EmmyStubs.Proofs.Enumerations
import EmmyStubs.Proofs.Partition
import EmmyStubs.Proofs.Filing
import EmmyStubs.Proofs.Reasons
import EmmyStubs.Proofs.Matching
import EmmyStubs.Proofs.Joining
import EmmyStubs.Proofs.Accepting
