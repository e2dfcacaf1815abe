import EmmyStubs.Text.Blank

/-! # Templates

    A template is text with places between double braces that name a value.  Filling it puts
    each value in its place as it is; a name without a value leaves nothing.  Inserted text is
    not looked at again. -/

namespace EmmyStubs

/-- A piece of a template. -/
inductive Template.Piece where
  | literal (text : List Char)
  | place (name : List Char)
  deriving DecidableEq, Repr

namespace Template

/-- The pieces of a template text.  `inside` holds what was read of a place, from the back,
    while its closing braces are looked for; a place that is never closed is literal. -/
def pieces (inside : Option (List Char)) : List Char → List Piece
  | [] =>
    match inside with
    | some read => [.literal ('{' :: '{' :: read.reverse)]
    | none => []
  | c :: cs =>
    match inside, c, cs with
    | none, '{', '{' :: rest => pieces (some []) rest
    | none, c, cs => .literal [c] :: pieces none cs
    | some read, '}', '}' :: rest => .place (Text.strip read.reverse) :: pieces none rest
    | some read, c, cs => pieces (some (c :: read)) cs

/-- The text of a piece, given the values by name. -/
def Piece.fill (values : List (String × String)) : Piece → List Char
  | .literal text => text
  | .place name =>
    match values.find? fun v => v.1.toList == name with
    | some v => v.2.toList
    | none => []

/-- The template filled with values. -/
def fill (template : String) (values : List (String × String)) : String :=
  String.ofList ((pieces none template.toList).flatMap (Piece.fill values))

example : fill "<\x7b\x7b a \x7d\x7d \x7b\x7bb\x7d\x7d>" [("a", "1")] = "<1 >" := by decide +kernel

end Template

end EmmyStubs
