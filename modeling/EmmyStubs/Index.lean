import EmmyStubs.Lua
import EmmyStubs.Text.Cut

/-! # The index of namespaces

    Namespaces nest by their dotted segments under the root table.  The index is that tree,
    its siblings ascending by code point, and its text a nest of empty tables. -/

namespace EmmyStubs

/-- The segments below a node, ascending, each with what is nested in it. -/
inductive Index where
  | node (children : List (String × Index))
  deriving Repr

namespace Index

/-! ## §1. Building -/

def empty : Index :=
  .node []

/-- Changes what is nested in a segment; a segment that is not there gets its place. -/
def update (segment : String) (f : Index → Index) : List (String × Index) → List (String × Index)
  | [] => [(segment, f empty)]
  | (s, t) :: rest =>
    if s = segment then (s, f t) :: rest
    else if segment < s then (segment, f empty) :: (s, t) :: rest
    else (s, t) :: update segment f rest

/-- Adds a path of segments. -/
def insert : List String → Index → Index
  | [], t => t
  | s :: ss, .node children => .node (update s (insert ss) children)

/-- The segments of a namespace; no namespace and the empty one have none. -/
def segmentsOf : Option String → List String
  | none => []
  | some space =>
    if space = "" then [] else (Text.segments '.' space.toList).map String.ofList

/-- The index of some namespaces. -/
def ofSpaces (spaces : List (Option String)) : Index :=
  spaces.foldl (fun t space => t.insert (segmentsOf space)) empty

/-! ## §2. Text -/

def indent (depth : Nat) : String :=
  "".pushn ' ' (4 * depth)

/-- The end of a table: a comma follows every sibling but the last. -/
def closing (last : Bool) : String :=
  if last then "\x7d\n" else "\x7d,\n"

mutual
/-- The table of a node, `depth` tables deep. -/
def tableText (name : String) (depth : Nat) (last : Bool) : Index → String
  | .node [] => indent depth ++ name ++ " = \x7b" ++ closing last
  | .node (c :: cs) =>
    indent depth ++ name ++ " = \x7b\n" ++ childrenText (depth + 1) (c :: cs)
      ++ indent depth ++ closing last

def childrenText (depth : Nat) : List (String × Index) → String
  | [] => ""
  | (s, t) :: rest => tableText s depth rest.isEmpty t ++ childrenText depth rest
end

/-- The text of an index under the root table. -/
def text (t : Index) : String :=
  tableText Lua.rootTable 0 true t

end Index

end EmmyStubs
