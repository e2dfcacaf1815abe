/-! # Cutting texts at a character

    `segments` cuts at every occurrence of a separator, `beforeFirst`, `beforeLast` and
    `afterLast` at one of them.  Joining the segments with the separator gives the text back. -/

namespace EmmyStubs.Text

/-- The stretches between the occurrences of `sep`; there is always at least one. -/
def segments (sep : Char) : List Char → List (List Char)
  | [] => [[]]
  | c :: cs =>
    if c = sep then [] :: segments sep cs
    else
      match segments sep cs with
      | [] => [[c]]
      | s :: ss => (c :: s) :: ss

/-- The text before the first `sep`; the whole text when there is none. -/
def beforeFirst (sep : Char) (s : List Char) : List Char :=
  s.takeWhile (· ≠ sep)

/-- The text after the last `sep`; the whole text when there is none. -/
def afterLast (sep : Char) (s : List Char) : List Char :=
  (s.reverse.takeWhile (· ≠ sep)).reverse

/-- The text before the last `sep`; nothing when there is none. -/
def beforeLast (sep : Char) (s : List Char) : List Char :=
  ((s.reverse.dropWhile (· ≠ sep)).drop 1).reverse

theorem segments_ne_nil (sep : Char) (s : List Char) : segments sep s ≠ [] := by
  cases s with
  | nil => simp [segments]
  | cons c cs =>
    unfold segments
    split
    · simp
    · split <;> simp

theorem length_beforeFirst_le (sep : Char) (s : List Char) :
    (beforeFirst sep s).length ≤ s.length :=
  (List.takeWhile_sublist _).length_le

example : segments '.' "a.b..c".toList = [['a'], ['b'], [], ['c']] := by decide +kernel
example : beforeLast '.' "a.b.c".toList = "a.b".toList ∧ beforeLast '.' "abc".toList = [] := by
  decide +kernel

end EmmyStubs.Text
