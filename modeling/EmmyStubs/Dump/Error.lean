import EmmyStubs.Files.Tree
import EmmyStubs.Graph.Descriptor

/-! # Faults of a dump

    Why a dump is refused, and the type whose entry is to blame where one is known. -/

namespace EmmyStubs.Dump

inductive Flaw where
  | unreadable (path : Files.Path) (cause : Files.FileError)
  | unparsable (fileName : String)
  | rootNotMap (fileName : String)
  | typesNotList
  | entryNotMap (entry : Value)
  | missingId
  | badName
  | badNamespace
  | unknownKind (given : Value)
  | duplicate
  | invalidReference (given : Value)
  | emptyArgument
  | missingReference (what : String)
  | unknownAccess (given : Value)
  | notList (what : String)
  | notMap (what : String)
  | memberNotMap (what : String)
  | missingName (what : String)
  | badParameterName
  | badConstants
  | badConstant (name : String)
  | cyclicDeclaring
  | cyclicBase
  deriving Repr

/-- What is said of a text that does not parse.  The place of the fault is not told. -/
def parseDetail : String := "malformed document"

def Flaw.reason : Flaw → String
  | .unreadable path cause =>
    "Cannot read descriptor dump " ++ path.toString ++ ": " ++ cause.message
  | .unparsable fileName => "Failed to parse " ++ fileName ++ ": " ++ parseDetail
  | .rootNotMap fileName => fileName ++ " must contain a mapping at the root"
  | .typesNotList => "'types' must be a list"
  | .entryNotMap entry => "type entry must be a mapping, got " ++ entry.shapeName
  | .missingId => "type entry is missing 'id'"
  | .badName => "'name' must be a non-empty string"
  | .badNamespace => "'namespace' must be a string"
  | .unknownKind given => "unknown kind " ++ given.shown
  | .duplicate => "duplicate type identity"
  | .invalidReference given => "invalid type reference " ++ given.shown
  | .emptyArgument => "empty generic argument"
  | .missingReference what => "missing " ++ what
  | .unknownAccess given => "unknown access modifier " ++ given.shown
  | .notList what => "'" ++ what ++ "' must be a list"
  | .notMap what => "'" ++ what ++ "' must be a mapping"
  | .memberNotMap what => what ++ " entry must be a mapping"
  | .missingName what => what ++ " is missing 'name'"
  | .badParameterName => "parameter 'name' must be a string"
  | .badConstants => "'enum_values' must be a list or mapping"
  | .badConstant name => "enum value " ++ name ++ " must be an integer"
  | .cyclicDeclaring => "cyclic declaring type"
  | .cyclicBase => "cyclic base type"

/-- Whether a reason can be written: a value that it shows may have an integer with too many
    digits in it. -/
def Flaw.isWritable : Flaw → Bool
  | .unknownKind given => given.shown?.isSome
  | .invalidReference given => given.shown?.isSome
  | .unknownAccess given => given.shown?.isSome
  | _ => true

/-- A flaw, and the identity of the type that has it. -/
structure Error where
  owner : Option Identity
  flaw : Flaw
  deriving Repr

def Error.reason (e : Error) : String :=
  e.flaw.reason

/-- The reason behind the identity of the type, where there is one. -/
def Error.message (e : Error) : String :=
  match e.owner with
  | some id => if id = "" then e.reason else id ++ ": " ++ e.reason
  | none => e.reason

end EmmyStubs.Dump
