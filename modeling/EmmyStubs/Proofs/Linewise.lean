import EmmyStubs.Text.Cut

/-! # Texts line by line

    * **`pieces`**: what stands in front of each end in a list; lines end at line breaks, and blocks
      of lines at empty lines.
    * **`linesOf`** and **`ofLines`**: the lines of a text, and the text of some lines.  Lines that
      have no line break in them are read back (`linesOf_ofLines`).
    * **`Unbroken`**: a text without a line break.
-/

namespace EmmyStubs.Text

/-! ## §1. Pieces -/

section

variable {α : Type} {ends : α → Bool} {w : List α}

/-- The stretches of a list that are followed by an end, and what is behind the last end, unless
    that is nothing. -/
def pieces (ends : α → Bool) : List α → List (List α)
  | [] => []
  | a :: l =>
    if ends a then [] :: pieces ends l
    else
      match pieces ends l with
      | [] => [[a]]
      | w :: ws => (a :: w) :: ws

theorem pieces_append_cons (hw : ∀ a ∈ w, ends a = false) {e : α} (he : ends e = true)
    (l : List α) : pieces ends (w ++ e :: l) = w :: pieces ends l := by
  induction w with
  | nil => simp [pieces, he]
  | cons a w ih =>
    obtain ⟨ha, hw⟩ := List.forall_mem_cons.1 hw
    simp [pieces, ha, ih hw]

theorem pieces_of_forall (hw : ∀ a ∈ w, ends a = false) (hne : w ≠ []) :
    pieces ends w = [w] := by
  induction w with
  | nil => exact absurd rfl hne
  | cons a w ih =>
    obtain ⟨ha, hw⟩ := List.forall_mem_cons.1 hw
    cases w with
    | nil => simp [pieces, ha]
    | cons b w =>
      have hrest := ih hw (List.cons_ne_nil b w)
      rw [pieces, hrest, if_neg (by simp [ha])]

end

/-! ## §2. Lines -/

/-- A text without a line break. -/
def Unbroken (s : String) : Prop :=
  '\n' ∉ s.toList

instance (s : String) : Decidable (Unbroken s) :=
  inferInstanceAs (Decidable ('\n' ∉ s.toList))

@[simp] theorem unbroken_append {s t : String} :
    Unbroken (s ++ t) ↔ Unbroken s ∧ Unbroken t := by
  simp [Unbroken]

theorem unbroken_intercalate {sep : String} (hsep : Unbroken sep) {parts : List String}
    (h : ∀ s ∈ parts, Unbroken s) : Unbroken (sep.intercalate parts) := by
  match parts, h with
  | [], _ => simp [Unbroken]
  | [s], h => simpa using h
  | s :: t :: rest, h =>
    obtain ⟨hs, hrest⟩ := List.forall_mem_cons.1 h
    rw [String.intercalate_cons_cons, unbroken_append, unbroken_append]
    exact ⟨⟨hs, hsep⟩, unbroken_intercalate hsep hrest⟩

/-- The lines of a text, each without the line break that ends it. -/
def linesOf (s : String) : List String :=
  (pieces (· == '\n') s.toList).map String.ofList

/-- The text of some lines. -/
def ofLines (ls : List String) : String :=
  String.join (ls.map (· ++ "\n"))

@[simp] theorem ofLines_nil : ofLines [] = "" := by
  simp [ofLines]

@[simp] theorem ofLines_cons (l : String) (ls : List String) :
    ofLines (l :: ls) = l ++ "\n" ++ ofLines ls := by
  simp [ofLines]

@[simp] theorem ofLines_append (ls ls' : List String) :
    ofLines (ls ++ ls') = ofLines ls ++ ofLines ls' := by
  simp [ofLines]

/-- A line break between any two lines, and one behind the last. -/
theorem intercalate_eq_ofLines {ls : List String} (h : ls ≠ []) :
    "\n".intercalate ls ++ "\n" = ofLines ls := by
  induction ls with
  | nil => exact absurd rfl h
  | cons l ls ih =>
    cases ls with
    | nil => simp
    | cons l' ls =>
      rw [String.intercalate_cons_cons, String.append_assoc, ih (by simp), ofLines_cons l]

theorem linesOf_ofLines {ls : List String} (h : ∀ l ∈ ls, Unbroken l) :
    linesOf (ofLines ls) = ls := by
  induction ls with
  | nil => simp [linesOf, pieces]
  | cons l ls ih =>
    obtain ⟨hl, hls⟩ := List.forall_mem_cons.1 h
    have hpass : ∀ c ∈ l.toList, (c == '\n') = false := fun c hc => by
      rw [beq_eq_false_iff_ne]
      rintro rfl
      exact hl hc
    have hbreak : (l ++ "\n" ++ ofLines ls).toList = l.toList ++ '\n' :: (ofLines ls).toList := by
      simp
    rw [ofLines_cons, linesOf, hbreak, pieces_append_cons hpass (by rfl), List.map_cons,
      String.ofList_toList]
    exact congrArg (l :: ·) (ih hls)

/-! ## §3. Blocks -/

/-- The blocks of some lines; an empty line ends a block. -/
def blocksOf (ls : List String) : List (List String) :=
  pieces (· == "") ls

example : blocksOf (linesOf "a\nb\n\nc\n") = [["a", "b"], ["c"]] := by decide +kernel

end EmmyStubs.Text
