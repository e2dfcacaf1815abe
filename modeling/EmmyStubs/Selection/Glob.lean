import EmmyStubs.Text.Cut

/-! # Patterns with stars

    A star stands for any run of characters, every other character for itself.  A pattern is
    matched by its stretches between stars: the first has to begin the name, the last to end
    it, and each one between is taken at its first occurrence behind the one before. -/

namespace EmmyStubs.Selection

open EmmyStubs.Text

/-- What follows the first occurrence of a stretch. -/
def afterFirst? (stretch : List Char) : List Char → Option (List Char)
  | [] => if stretch.isEmpty then some [] else none
  | c :: cs =>
    if stretch.isPrefixOf (c :: cs) then some ((c :: cs).drop stretch.length)
    else afterFirst? stretch cs

/-- Whether a text holds some stretches in order, the last of them at its end. -/
def holdsInOrder : List (List Char) → List Char → Bool
  | [], _ => true
  | [last], s => last.isSuffixOf s
  | stretch :: rest, s =>
    match afterFirst? stretch s with
    | some s => holdsInOrder rest s
    | none => false

/-- Whether a name matches a pattern. -/
def matchesText (name pattern : List Char) : Bool :=
  match segments '*' pattern with
  | [] => false
  | [whole] => name == whole
  | first :: rest => first.isPrefixOf name && holdsInOrder rest (name.drop first.length)

/-- Whether a name matches a pattern; no name is matched by no pattern and by nothing else. -/
def isMatch (name pattern : Option String) : Bool :=
  match name, pattern with
  | none, none => true
  | some name, some pattern => matchesText name.toList pattern.toList
  | _, _ => false

example : matchesText "Game.Ui.Menu".toList "Game.*Menu".toList = true := by decide +kernel
example : matchesText "aba".toList "ab*ba".toList = false := by decide +kernel

end EmmyStubs.Selection
