import EmmyStubs.Text.Cut

/-! # File paths

    A path is relative, or starts at the root written with one or with two slashes, and has
    named parts below that.  Empty parts and single dots vanish when a path is read; two dots
    stay.  Joining an absolute path onto another discards the other. -/

namespace EmmyStubs.Files

open EmmyStubs.Text

/-- Where a path starts.  Exactly two leading slashes are kept apart from one. -/
inductive Root where
  | relative
  | single
  | double
  deriving DecidableEq, Repr

/-- The slashes written in front of the parts. -/
def Root.text : Root → String
  | .relative => ""
  | .single => "/"
  | .double => "//"

structure Path where
  root : Root
  parts : List String
  deriving DecidableEq, Repr

namespace Path

/-- Whether a stretch between slashes names something. -/
def isPart (s : List Char) : Bool :=
  s != [] && s != ['.']

/-- The parts that a text names between slashes. -/
def partsOf (s : List Char) : List String :=
  ((segments '/' s).filter isPart).map String.ofList

/-- Where a path text starts. -/
def rootOf : List Char → Root
  | '/' :: '/' :: '/' :: _ => .single
  | '/' :: '/' :: _ => .double
  | '/' :: _ => .single
  | _ => .relative

/-- Reads a path. -/
def ofString (s : String) : Path :=
  ⟨rootOf s.toList, partsOf s.toList⟩

/-- The text of a path; the empty one is a dot. -/
def toString (p : Path) : String :=
  match p.root, p.parts with
  | .relative, [] => "."
  | root, parts => root.text ++ "/".intercalate parts

/-- `p` with `q` below it, unless `q` is absolute. -/
def join (p q : Path) : Path :=
  if q.root = .relative then ⟨p.root, p.parts ++ q.parts⟩ else q

/-- The path named by a text below `p`. -/
def child (p : Path) (s : String) : Path :=
  p.join (ofString s)

/-- The path without its last part. -/
def parent (p : Path) : Path :=
  { p with parts := p.parts.dropLast }

/-- The last part, empty when there is none. -/
def name (p : Path) : String :=
  p.parts.getLast?.getD ""

/-- A name cut at its last point, when something stands on both sides of it. -/
def splitName (s : List Char) : List Char × List Char :=
  let stem := beforeLast '.' s
  let ending := afterLast '.' s
  if stem = [] ∨ ending = [] then (s, []) else (stem, '.' :: ending)

/-- The name without its ending. -/
def stem (p : Path) : String :=
  String.ofList (splitName p.name.toList).1

/-- The ending of the name, its point included. -/
def ending (p : Path) : String :=
  String.ofList (splitName p.name.toList).2

/-- The parts with every `..` taken against the part before it. -/
def collapse (parts : List String) : List String :=
  (parts.foldl (fun acc p => if p = ".." then acc.drop 1 else p :: acc) []).reverse

/-- The absolute path of `p` seen from the directory `cwd`, free of `..`. -/
def resolve (p cwd : Path) : Path :=
  ⟨.single, collapse (cwd.join p).parts⟩

example : (ofString "./a//b/./c/").toString = "a/b/c" ∧ (ofString "///x").toString = "/x" := by
  decide +kernel
example : ((ofString "out").child "/abs").toString = "/abs" ∧ (ofString "").toString = "." := by
  decide +kernel

end Path

end EmmyStubs.Files
