import Mathlib.Data.List.Basic

/-! # Brackets in a text

    Three kinds of brackets are nested in one another: round, square and curly ones.

    * **`openBehind`**: reads a text and says which brackets are open behind it.
    * **`Nested`**: every bracket of a text is closed by its own kind, in order.
    * **`OpenBar`**: a bar stands outside all brackets.  In a nested text put before another one,
      or between brackets, this is told by the parts (`openBar_append`, `not_openBar_group`).
    * **`Loose`**, **`Tight`**: a text that falls apart when something is put behind it, being a
      union or a function, and a text that does not.
-/

namespace EmmyStubs.Text

/-! ## §1. Open brackets -/

/-- The bracket that closes an opening one. -/
def closing? (c : Char) : Option Char :=
  if c = '(' then some ')'
  else if c = '[' then some ']'
  else if c = '\x7b' then some '\x7d'
  else none

def isClosing (c : Char) : Bool :=
  c == ')' || c == ']' || c == '\x7d'

/-- A bracket of any kind, or a bar. -/
def isMark (c : Char) : Bool :=
  (closing? c).isSome || isClosing c || c == '|'

/-- What is open behind a closing bracket; nothing where it does not close the innermost one. -/
def close? (c : Char) : List Char → Option (List Char)
  | [] => none
  | d :: stack => if c = d then some stack else none

/-- What is open behind a character.  Open brackets are given by those that close them, the
    innermost first. -/
def bracketStep (stack : List Char) (c : Char) : Option (List Char) :=
  match closing? c with
  | some d => some (d :: stack)
  | none => if isClosing c then close? c stack else some stack

/-- What is open behind a text that is read inside some open brackets. -/
def openBehind (stack s : List Char) : Option (List Char) :=
  s.foldlM bracketStep stack

/-- The brackets of a text are properly nested. -/
def Nested (s : List Char) : Prop :=
  openBehind [] s = some []

/-- A bar stands outside all brackets. -/
def OpenBar (s : List Char) : Prop :=
  ∃ a b, s = a ++ '|' :: b ∧ Nested a

/-- There are no brackets and no bars. -/
def Unmarked (s : List Char) : Prop :=
  ∀ c ∈ s, isMark c = false

instance (s : List Char) : Decidable (Nested s) :=
  inferInstanceAs (Decidable (openBehind [] s = some []))

instance (s : List Char) : Decidable (Unmarked s) :=
  List.decidableBAll (isMark · = false) s

theorem openBehind_append (stack a b : List Char) :
    openBehind stack (a ++ b) = (openBehind stack a).bind fun stack' => openBehind stack' b :=
  List.foldlM_append

/-- More brackets open all around do not matter. -/
theorem bracketStep_frame {stack stack' : List Char} {c : Char}
    (h : bracketStep stack c = some stack') (around : List Char) :
    bracketStep (stack ++ around) c = some (stack' ++ around) := by
  unfold bracketStep at h ⊢
  cases hc : closing? c with
  | some d =>
    rw [hc, Option.some.injEq] at h
    rw [← h, List.cons_append]
  | none =>
    rw [hc] at h
    dsimp only at h ⊢
    by_cases hclosing : isClosing c = true
    · rw [if_pos hclosing] at h ⊢
      cases stack with
      | nil => cases h
      | cons d stack =>
        rw [close?] at h
        rw [List.cons_append, close?]
        by_cases hd : c = d
        · rw [if_pos hd, Option.some.injEq] at h
          rw [if_pos hd, h]
        · rw [if_neg hd] at h
          cases h
    · rw [if_neg hclosing, Option.some.injEq] at h ⊢
      rw [h]

theorem openBehind_frame {stack stack' s : List Char} (h : openBehind stack s = some stack')
    (around : List Char) : openBehind (stack ++ around) s = some (stack' ++ around) := by
  induction s generalizing stack with
  | nil =>
    have heq : stack = stack' := Option.some.inj h
    rw [heq]
    rfl
  | cons c s ih =>
    obtain ⟨mid, hmid, hrest⟩ := Option.bind_eq_some_iff.1 h
    show (bracketStep (stack ++ around) c).bind (fun st => openBehind st s) = _
    rw [bracketStep_frame hmid around]
    exact ih hrest

/-! ## §2. Nested texts -/

section

variable {s a b : List Char} {c d : Char}

/-- A nested text leaves open what was open. -/
theorem Nested.openBehind (h : Nested s) (stack : List Char) :
    openBehind stack s = some stack :=
  openBehind_frame h stack

theorem nested_nil : Nested [] := rfl

theorem Nested.append (ha : Nested a) (hb : Nested b) : Nested (a ++ b) := by
  rw [Nested, openBehind_append, ha]
  exact hb

theorem nested_append_iff (ha : Nested a) : Nested (a ++ b) ↔ Nested b := by
  rw [Nested, openBehind_append, ha]
  rfl

theorem bracketStep_of_closing? (hc : closing? c = some d) (stack : List Char) :
    bracketStep stack c = some (d :: stack) := by
  rw [bracketStep, hc]

/-- What closes a bracket opens none, and is no bar. -/
theorem closes_of_closing? (hc : closing? c = some d) :
    closing? d = none ∧ isClosing d = true ∧ d ≠ '|' ∧ c ≠ '|' := by
  unfold closing? at hc
  split at hc
  · next h => cases hc; subst h; decide
  · split at hc
    · next h => cases hc; subst h; decide
    · split at hc
      · next h => cases hc; subst h; decide
      · cases hc

theorem Nested.group (hc : closing? c = some d) (h : Nested s) : Nested (c :: (s ++ [d])) := by
  obtain ⟨hd, hclosing, -⟩ := closes_of_closing? hc
  have hlast : bracketStep [d] d = some [] := by
    rw [bracketStep, hd]
    dsimp only
    rw [if_pos hclosing, close?, if_pos rfl]
  show (bracketStep [] c).bind (fun stack => Text.openBehind stack (s ++ [d])) = some []
  rw [bracketStep_of_closing? hc, Option.bind_some, openBehind_append, h.openBehind,
    Option.bind_some]
  show (bracketStep [d] d).bind some = some []
  rw [hlast]
  rfl

theorem bracketStep_of_not_isMark (hc : isMark c = false) (stack : List Char) :
    bracketStep stack c = some stack := by
  simp only [isMark, Bool.or_eq_false_iff] at hc
  have hopen : closing? c = none := by
    rw [← Option.not_isSome_iff_eq_none, hc.1.1]
    exact Bool.false_ne_true
  rw [bracketStep, hopen]
  dsimp only
  rw [if_neg (by simp [hc.1.2])]

theorem Unmarked.nested (h : Unmarked s) : Nested s := by
  induction s with
  | nil => exact nested_nil
  | cons c s ih =>
    have hc : isMark c = false := h c List.mem_cons_self
    show (bracketStep [] c).bind (fun stack => Text.openBehind stack s) = some []
    rw [bracketStep_of_not_isMark hc]
    exact ih fun d hd => h d (List.mem_cons_of_mem c hd)

theorem Unmarked.append (ha : Unmarked a) (hb : Unmarked b) : Unmarked (a ++ b) := by
  intro c hc
  rcases List.mem_append.1 hc with hc | hc
  · exact ha c hc
  · exact hb c hc

/-- Texts between which the same text is put. -/
theorem nested_intercalate {sep : List Char} {parts : List (List Char)} (hsep : Nested sep)
    (h : ∀ part ∈ parts, Nested part) : Nested (sep.intercalate parts) := by
  induction parts with
  | nil => exact nested_nil
  | cons first rest ih =>
    have hfirst : Nested first := h first List.mem_cons_self
    have hrest := ih fun part hpart => h part (List.mem_cons_of_mem first hpart)
    cases rest with
    | nil => simpa using hfirst
    | cons second rest =>
      rw [List.intercalate_cons_cons]
      exact (hfirst.append hsep).append hrest

theorem unmarked_intercalate {sep : List Char} {parts : List (List Char)} (hsep : Unmarked sep)
    (h : ∀ part ∈ parts, Unmarked part) : Unmarked (sep.intercalate parts) := by
  induction parts with
  | nil => exact fun c hc => absurd hc (by simp)
  | cons first rest ih =>
    have hfirst : Unmarked first := h first List.mem_cons_self
    have hrest := ih fun part hpart => h part (List.mem_cons_of_mem first hpart)
    cases rest with
    | nil => simpa using hfirst
    | cons second rest =>
      rw [List.intercalate_cons_cons]
      exact (hfirst.append hsep).append hrest

/-! ## §3. Bars outside all brackets -/

theorem openBar_append (ha : Nested a) : OpenBar (a ++ b) ↔ OpenBar a ∨ OpenBar b := by
  constructor
  · rintro ⟨front, behind, heq, hfront⟩
    rcases List.append_eq_append_iff.1 heq with ⟨mid, rfl, rfl⟩ | ⟨mid, rfl, hmid⟩
    · -- The bar stands in `b`, behind `mid`.
      exact .inr ⟨mid, behind, rfl, (nested_append_iff ha).1 hfront⟩
    · cases mid with
      | nil => exact .inr ⟨[], behind, hmid.symm, nested_nil⟩
      | cons e mid =>
        obtain ⟨rfl, -⟩ := List.cons.inj hmid
        exact .inl ⟨front, mid, rfl, hfront⟩
  · rintro (⟨front, behind, rfl, hfront⟩ | ⟨front, behind, rfl, hfront⟩)
    · exact ⟨front, behind ++ b, by simp, hfront⟩
    · exact ⟨a ++ front, behind, by simp, ha.append hfront⟩

/-- Between brackets no bar is outside all brackets. -/
theorem not_openBar_group (hc : closing? c = some d) (h : Nested s) :
    ¬OpenBar (c :: (s ++ [d])) := by
  rintro ⟨front, behind, heq, hfront⟩
  obtain ⟨-, -, hd, hbar⟩ := closes_of_closing? hc
  cases front with
  | nil => exact hbar (List.cons.inj heq).1
  | cons e front =>
    obtain ⟨rfl, htail⟩ := List.cons.inj heq
    rcases List.append_eq_append_iff.1 htail with ⟨mid, hmid, hlast⟩ | ⟨mid, rfl, -⟩
    · -- The bar would be the closing bracket, or stand behind it.
      have hmem : '|' ∈ [d] := hlast ▸ List.mem_append_right mid List.mem_cons_self
      exact hd (List.mem_singleton.1 hmem).symm
    · -- What is open behind `front` is open there too with one more bracket around it.
      rw [Nested, openBehind_append] at h
      obtain ⟨stack, hstack, -⟩ := Option.bind_eq_some_iff.1 h
      have hinside : openBehind [d] front = some (stack ++ [d]) := openBehind_frame hstack [d]
      have houter : openBehind [d] front = some [] := by
        have hfront' : (bracketStep [] c).bind (fun st => openBehind st front) = some [] := hfront
        rwa [bracketStep_of_closing? hc] at hfront'
      rw [hinside, Option.some.injEq] at houter
      exact absurd houter (by simp)

theorem Unmarked.not_openBar (h : Unmarked s) : ¬OpenBar s := by
  rintro ⟨front, behind, rfl, -⟩
  have hbar : isMark '|' = false := h '|' (List.mem_append_right front List.mem_cons_self)
  exact absurd hbar (by decide)

/-! ## §4. Loose and tight texts -/

/-- How a function type begins. -/
def functionHead : List Char :=
  "fun(".toList

/-- A union or a function type that no brackets hold together. -/
def Loose (s : List Char) : Prop :=
  OpenBar s ∨ functionHead <+: s

/-- A nested text that is not loose. -/
structure Tight (s : List Char) : Prop where
  nested : Nested s
  not_loose : ¬Loose s

/-- A function type does not begin where its round bracket is missing. -/
theorem not_functionHead (h : '(' ∉ s) : ¬functionHead <+: s := by
  rintro ⟨t, rfl⟩
  exact h (List.mem_append_left t (by decide))

theorem Unmarked.tight (h : Unmarked s) : Tight s where
  nested := h.nested
  not_loose := by
    rintro (hbar | hhead)
    · exact h.not_openBar hbar
    · have hround : isMark '(' = false := by
        by_cases hmem : '(' ∈ s
        · exact h '(' hmem
        · exact absurd hhead (not_functionHead hmem)
      exact absurd hround (by decide)

/-- Brackets hold a text together. -/
theorem Nested.tight_group (hc : closing? c = some d) (h : Nested s) :
    Tight (c :: (s ++ [d])) where
  nested := h.group hc
  not_loose := by
    rintro (hbar | ⟨t, ht⟩)
    · exact not_openBar_group hc h hbar
    · have hfirst : 'f' = c := (List.cons.inj ht).1
      have hopen : closing? 'f' = none := by decide
      rw [← hfirst, hopen] at hc
      cases hc

/-- A tight text stays tight when a tight one without round brackets is put behind it. -/
theorem Tight.append (ha : Tight a) (hb : Tight b) (hround : ∀ e ∈ b.head?, e ∉ functionHead) :
    Tight (a ++ b) where
  nested := ha.nested.append hb.nested
  not_loose := by
    rintro (hbar | hhead)
    · rcases (openBar_append ha.nested).1 hbar with hbar | hbar
      · exact ha.not_loose (.inl hbar)
      · exact hb.not_loose (.inl hbar)
    · -- The head would have to go on in `b`, whose first character is not in it.
      rcases Nat.le_total functionHead.length a.length with hle | hle
      · have ha' : a <+: a ++ b := List.prefix_append a b
        exact ha.not_loose (.inr (List.prefix_of_prefix_length_le hhead ha' hle))
      · obtain ⟨t, ht⟩ := List.prefix_of_prefix_length_le (List.prefix_append a b) hhead hle
        cases t with
        | nil => exact ha.not_loose (.inr ⟨[], by simpa using ht.symm⟩)
        | cons e t =>
          obtain ⟨u, hu⟩ := hhead
          rw [← ht, List.append_assoc, List.append_cancel_left_eq] at hu
          refine hround e (by rw [← hu]; rfl) ?_
          rw [← ht]
          exact List.mem_append_right a List.mem_cons_self

end

end EmmyStubs.Text
