import EmmyStubs.Selection.Glob

/-! # The names that a pattern stands for

    Matching takes each stretch between two stars at its first occurrence and never goes back.

    * **`StandsFor`**: what a pattern means.  A name comes of it when every star is replaced by
      some text.
    * **`InOrder`**: the same, said of the stretches between stars.
    * **`isMatch_iff`**: matching decides exactly what a pattern means.  Nothing is lost by
      never going back: the first occurrence of a stretch leaves the longest rest
      (`exists_afterFirst?`), and what has room in a rest has room in a longer one
      (`InOrder.of_suffix`).
-/

namespace EmmyStubs.Selection

open EmmyStubs.Text

/-! ## §1. What a pattern means -/

/-- The name comes of the pattern when each star is replaced by some text, which may be empty,
    and every other character is kept. -/
inductive StandsFor : List Char → List Char → Prop
  | nil : StandsFor [] []
  | keep {c : Char} {pattern name : List Char} (hc : c ≠ '*') (h : StandsFor pattern name) :
      StandsFor (c :: pattern) (c :: name)
  | star (run : List Char) {pattern name : List Char} (h : StandsFor pattern name) :
      StandsFor ('*' :: pattern) (run ++ name)

/-- Some stretches, each behind any run of characters, and nothing behind the last. -/
def InOrder : List (List Char) → List Char → Prop
  | [], s => s = []
  | stretch :: rest, s => ∃ run s', s = run ++ (stretch ++ s') ∧ InOrder rest s'

/-- Some stretches of which the first one stands at the beginning. -/
def Anchored : List (List Char) → List Char → Prop
  | [], _ => False
  | first :: rest, s => ∃ s', s = first ++ s' ∧ InOrder rest s'

/-- Behind a star the next stretch need not stand at the beginning. -/
theorem inOrder_iff {stretches : List (List Char)} (h : stretches ≠ []) {s : List Char} :
    InOrder stretches s ↔ ∃ run s', s = run ++ s' ∧ Anchored stretches s' := by
  obtain ⟨first, rest, rfl⟩ := List.exists_cons_of_ne_nil h
  constructor
  · rintro ⟨run, s', rfl, hrest⟩
    exact ⟨run, first ++ s', rfl, s', rfl, hrest⟩
  · rintro ⟨run, _, rfl, s', rfl, hrest⟩
    exact ⟨run, s', rfl, hrest⟩

/-- A pattern is told by the stretches between its stars. -/
theorem standsFor_iff {pattern name : List Char} :
    StandsFor pattern name ↔ Anchored (segments '*' pattern) name := by
  induction pattern generalizing name with
  | nil =>
    constructor
    · intro h
      cases h
      exact ⟨[], rfl, rfl⟩
    · rintro ⟨s', rfl, rfl⟩
      exact .nil
  | cons c cs ih =>
    by_cases hc : c = '*'
    · subst hc
      have hsegments : segments '*' ('*' :: cs) = [] :: segments '*' cs := by simp [segments]
      rw [hsegments]
      constructor
      · intro h
        cases h with
        | keep hc _ => exact absurd rfl hc
        | star run h =>
          refine ⟨_, rfl, (inOrder_iff (segments_ne_nil '*' cs)).2 ?_⟩
          exact ⟨run, _, rfl, ih.1 h⟩
      · rintro ⟨s', rfl, h⟩
        obtain ⟨run, s'', rfl, hrest⟩ := (inOrder_iff (segments_ne_nil '*' cs)).1 h
        exact .star run (ih.2 hrest)
    · -- The character belongs to the first stretch.
      obtain ⟨first, rest, hcs⟩ := List.exists_cons_of_ne_nil (segments_ne_nil '*' cs)
      have hsegments : segments '*' (c :: cs) = (c :: first) :: rest := by
        simp [segments, hc, hcs]
      rw [hcs] at ih
      rw [hsegments]
      constructor
      · intro h
        cases h with
        | keep _ h =>
          obtain ⟨s', rfl, hrest⟩ := ih.1 h
          exact ⟨s', rfl, hrest⟩
        | star run _ => exact absurd rfl hc
      · rintro ⟨s', rfl, h⟩
        exact .keep hc (ih.2 ⟨s', rfl, h⟩)

/-! ## §2. First occurrences -/

/-- What has room in a rest has room in a longer one. -/
theorem InOrder.of_suffix {stretches : List (List Char)} (hne : stretches ≠ [])
    {s s' : List Char} (h : InOrder stretches s') (hs : s' <:+ s) : InOrder stretches s := by
  obtain ⟨first, rest, rfl⟩ := List.exists_cons_of_ne_nil hne
  obtain ⟨before, rfl⟩ := hs
  obtain ⟨run, s'', rfl, h⟩ := h
  exact ⟨before ++ run, s'', by rw [List.append_assoc], h⟩

theorem eq_of_afterFirst? {stretch s rest : List Char} (h : afterFirst? stretch s = some rest) :
    ∃ run, s = run ++ (stretch ++ rest) := by
  induction s with
  | nil =>
    simp only [afterFirst?] at h
    split at h
    · next hempty =>
      cases h
      exact ⟨[], by simpa using hempty⟩
    · cases h
  | cons c cs ih =>
    simp only [afterFirst?] at h
    split at h
    · next hfix =>
      cases h
      obtain ⟨t, ht⟩ := List.isPrefixOf_iff_prefix.1 hfix
      exact ⟨[], by rw [← ht]; simp⟩
    · obtain ⟨run, rfl⟩ := ih h
      exact ⟨c :: run, rfl⟩

/-- Where a stretch occurs, its first occurrence is found, and the rest behind that one is the
    longest. -/
theorem exists_afterFirst? (run stretch rest : List Char) :
    ∃ r, afterFirst? stretch (run ++ (stretch ++ rest)) = some r ∧ rest <:+ r := by
  induction run with
  | nil =>
    rw [List.nil_append]
    cases hs : stretch ++ rest with
    | nil =>
      obtain ⟨rfl, rfl⟩ := List.append_eq_nil_iff.1 hs
      exact ⟨[], rfl, List.suffix_refl []⟩
    | cons c cs =>
      have hfix : stretch.isPrefixOf (c :: cs) = true := by
        rw [List.isPrefixOf_iff_prefix, ← hs]
        exact List.prefix_append stretch rest
      refine ⟨(c :: cs).drop stretch.length, ?_, ?_⟩
      · rw [afterFirst?, if_pos hfix]
      · have hdrop : (c :: cs).drop stretch.length = rest := by rw [← hs, List.drop_left]
        exact hdrop ▸ List.suffix_refl rest
  | cons c run ih =>
    obtain ⟨r, hr, hsuffix⟩ := ih
    rw [List.cons_append, afterFirst?]
    -- An occurrence at the very beginning is earlier than the given one.
    by_cases hfix : stretch.isPrefixOf (c :: (run ++ (stretch ++ rest))) = true
    · obtain ⟨t, ht⟩ := List.isPrefixOf_iff_prefix.1 hfix
      refine ⟨t, by rw [if_pos hfix, ← ht, List.drop_left], ?_⟩
      have hlength : rest.length ≤ t.length := by
        have := congrArg List.length ht
        simp only [List.length_append, List.length_cons] at this
        omega
      have hrest : rest <:+ c :: (run ++ (stretch ++ rest)) := by
        rw [← List.cons_append, ← List.append_assoc]
        exact List.suffix_append _ rest
      exact List.suffix_of_suffix_length_le hrest ⟨stretch, ht⟩ hlength
    · exact ⟨r, by rw [if_neg hfix, hr], hsuffix⟩

/-- Taking each stretch at its first occurrence succeeds whenever the stretches have room. -/
theorem holdsInOrder_iff {stretches : List (List Char)} (hne : stretches ≠ []) {s : List Char} :
    holdsInOrder stretches s = true ↔ InOrder stretches s := by
  fun_induction holdsInOrder stretches s with
  | case1 => exact absurd rfl hne
  | case2 last s =>
    rw [List.isSuffixOf_iff_suffix]
    constructor
    · rintro ⟨run, rfl⟩
      exact ⟨run, [], by rw [List.append_nil], rfl⟩
    · rintro ⟨run, _, rfl, rfl⟩
      exact ⟨run, by rw [List.append_nil]⟩
  | case3 stretch rest s hlast s' hfirst ih =>
    have hrest : rest ≠ [] := hlast
    rw [ih hrest]
    constructor
    · intro h
      obtain ⟨run, rfl⟩ := eq_of_afterFirst? hfirst
      exact ⟨run, s', rfl, h⟩
    · rintro ⟨run, t, rfl, h⟩
      obtain ⟨r, hr, hsuffix⟩ := exists_afterFirst? run stretch t
      rw [hr, Option.some.injEq] at hfirst
      exact hfirst ▸ h.of_suffix hrest hsuffix
  | case4 stretch rest s hlast hfirst =>
    constructor
    · intro h
      cases h
    · rintro ⟨run, t, rfl, -⟩
      obtain ⟨r, hr, -⟩ := exists_afterFirst? run stretch t
      rw [hr] at hfirst
      cases hfirst

/-! ## §3. Matching -/

theorem matchesText_iff {name pattern : List Char} :
    matchesText name pattern = true ↔ StandsFor pattern name := by
  rw [standsFor_iff]
  unfold matchesText
  split
  · next h => exact absurd h (segments_ne_nil '*' pattern)
  · next whole h =>
    rw [h, beq_iff_eq]
    constructor
    · rintro rfl
      exact ⟨[], by rw [List.append_nil], rfl⟩
    · rintro ⟨_, rfl, rfl⟩
      rw [List.append_nil]
  · next first rest hrest h =>
    have hrest : rest ≠ [] := hrest
    rw [h, Bool.and_eq_true, List.isPrefixOf_iff_prefix, holdsInOrder_iff hrest]
    constructor
    · rintro ⟨⟨s', rfl⟩, hin⟩
      rw [List.drop_left] at hin
      exact ⟨s', rfl, hin⟩
    · rintro ⟨s', rfl, hin⟩
      rw [List.drop_left]
      exact ⟨List.prefix_append first s', hin⟩

/-- A name matches a pattern exactly if it comes of the pattern when each star is replaced by
    some text; no name and no pattern match each other, and nothing else. -/
theorem isMatch_iff (name pattern : Option String) :
    isMatch name pattern = true ↔
      match name, pattern with
      | none, none => True
      | some name, some pattern => StandsFor pattern.toList name.toList
      | _, _ => False := by
  cases name with
  | none =>
    cases pattern with
    | none => exact iff_of_true rfl trivial
    | some pattern => exact iff_of_false Bool.false_ne_true id
  | some name =>
    cases pattern with
    | none => exact iff_of_false Bool.false_ne_true id
    | some pattern => exact matchesText_iff

end EmmyStubs.Selection
