import EmmyStubs.Proofs.Spellings

/-! # Identities that are read back

    Taking the outermost layer off the identity of a reference gives the parts that the reference
    was put together from.

    * **`Paired`**: square brackets come in pairs, and commas stand between them only, or in front
      as well.  Behind such a text each of the scans goes on as if it had not been there
      (`Paired.topLevel`, `Paired.untilOpening`).
    * **`Piece`**: what holds of the text of every reference: it is paired, and no blank begins or
      ends it (`Reference.piece_print`).
    * **`ofIdentity_identity`**: so the three scans find the brackets and the arguments that were
      printed.
-/

namespace EmmyStubs.Text

/-! ## §1. Cuts -/

section

variable {sep : Char} {a b s : List Char}

theorem passes_of_notMem (h : sep ∉ s) : ∀ c ∈ s, decide (c ≠ sep) = true := by
  intro c hc
  have hne : c ≠ sep := fun heq => h (heq ▸ hc)
  simpa using hne

theorem beforeFirst_of_notMem (h : sep ∉ s) : beforeFirst sep s = s := by
  have hall : (s ++ []).takeWhile (fun c => decide (c ≠ sep)) = s ++ [].takeWhile _ :=
    List.takeWhile_append_of_pos (passes_of_notMem h)
  rwa [List.append_nil, List.takeWhile_nil, List.append_nil] at hall

/-- What stands behind a separator does not matter. -/
theorem beforeFirst_append_cons (sep : Char) (a b : List Char) :
    beforeFirst sep (a ++ sep :: b) = beforeFirst sep a := by
  induction a with
  | nil =>
    show (sep :: b).takeWhile _ = [].takeWhile _
    rw [List.takeWhile_cons_of_neg (by simp), List.takeWhile_nil]
  | cons c a ih =>
    unfold beforeFirst at ih ⊢
    rw [List.cons_append, List.takeWhile_cons, List.takeWhile_cons, ih]

theorem beforeFirst_append (h : sep ∉ a) (b : List Char) :
    beforeFirst sep (a ++ sep :: b) = a := by
  rw [beforeFirst_append_cons, beforeFirst_of_notMem h]

theorem afterLast_of_notMem (h : sep ∉ s) : afterLast sep s = s := by
  have hreverse : beforeFirst sep s.reverse = s.reverse :=
    beforeFirst_of_notMem fun hmem => h (List.mem_reverse.1 hmem)
  show (beforeFirst sep s.reverse).reverse = s
  rw [hreverse, List.reverse_reverse]

theorem afterLast_append (a : List Char) (h : sep ∉ b) : afterLast sep (a ++ sep :: b) = b := by
  have hfirst : beforeFirst sep (b.reverse ++ sep :: a.reverse) = b.reverse :=
    beforeFirst_append (fun hmem => h (List.mem_reverse.1 hmem)) _
  show (beforeFirst sep (a ++ sep :: b).reverse).reverse = b
  rw [List.reverse_append, List.reverse_cons, List.append_assoc, List.singleton_append, hfirst,
    List.reverse_reverse]

theorem beforeLast_of_notMem (h : sep ∉ s) : beforeLast sep s = [] := by
  have hback : sep ∉ s.reverse := fun hmem => h (List.mem_reverse.1 hmem)
  have hall : (s.reverse ++ []).dropWhile (fun c => decide (c ≠ sep)) = [].dropWhile _ :=
    List.dropWhile_append_of_pos (passes_of_notMem hback)
  rw [List.append_nil, List.dropWhile_nil] at hall
  rw [beforeLast, hall]
  rfl

theorem beforeLast_append (a : List Char) (h : sep ∉ b) : beforeLast sep (a ++ sep :: b) = a := by
  have hback : sep ∉ b.reverse := fun hmem => h (List.mem_reverse.1 hmem)
  rw [beforeLast, List.reverse_append, List.reverse_cons, List.append_assoc,
    List.singleton_append, List.dropWhile_append_of_pos (passes_of_notMem hback),
    List.dropWhile_cons_of_neg (by simp), List.drop_one, List.tail_cons, List.reverse_reverse]

/-- A text without blanks at its ends stays as it is. -/
theorem strip_eq_self (hhead : ∀ c ∈ s.head?, isBlank c = false)
    (hlast : ∀ c ∈ s.getLast?, isBlank c = false) : strip s = s := by
  have hdrop : ∀ t : List Char, (∀ c ∈ t.head?, isBlank c = false) → t.dropWhile isBlank = t := by
    intro t ht
    cases t with
    | nil => rfl
    | cons c t => rw [List.dropWhile_cons_of_neg (by simp [ht c rfl])]
  have hback : ∀ c ∈ s.reverse.head?, isBlank c = false := by
    intro c hc
    rw [List.head?_reverse] at hc
    exact hlast c hc
  rw [strip, trim, hdrop s hhead, hdrop _ hback, List.reverse_reverse]

end

end EmmyStubs.Text

namespace EmmyStubs.Dump

open EmmyStubs.Text

/-! ## §2. Paired brackets -/

/-- Every square bracket is closed, and in order.  Commas stand inside the brackets, and outside
    them where `commas` allows it. -/
inductive Paired : Bool → List Char → Prop
  | nil {commas : Bool} : Paired commas []
  | char {commas : Bool} {c : Char} {s : List Char} (hopen : c ≠ '[') (hclose : c ≠ ']')
      (hcomma : c = ',' → commas = true) (h : Paired commas s) : Paired commas (c :: s)
  | group {commas : Bool} {s t : List Char} (hs : Paired true s) (ht : Paired commas t) :
      Paired commas ('[' :: (s ++ ']' :: t))

namespace Paired

variable {commas : Bool} {a b s : List Char}

theorem append (ha : Paired commas a) (hb : Paired commas b) : Paired commas (a ++ b) := by
  induction ha with
  | nil => exact hb
  | char hopen hclose hcomma _ ih => exact .char hopen hclose hcomma (ih hb)
  | @group commas s t hs _ _ iht =>
    have htext : '[' :: (s ++ ']' :: t) ++ b = '[' :: (s ++ ']' :: (t ++ b)) := by simp
    rw [htext]
    exact .group hs (iht hb)

theorem allow (h : Paired commas s) : Paired true s := by
  induction h with
  | nil => exact .nil
  | char hopen hclose _ _ ih => exact .char hopen hclose (fun _ => rfl) ih
  | group hs _ _ iht => exact .group hs iht

/-- A bracket around a text in which commas may stand. -/
theorem bracket (h : Paired true s) : Paired commas ('[' :: (s ++ [']'])) :=
  .group h .nil

theorem of_forall (h : ∀ c ∈ s, c ≠ '[' ∧ c ≠ ']' ∧ (c = ',' → commas = true)) :
    Paired commas s := by
  induction s with
  | nil => exact .nil
  | cons c s ih =>
    obtain ⟨hopen, hclose, hcomma⟩ := h c List.mem_cons_self
    exact .char hopen hclose hcomma (ih fun d hd => h d (List.mem_cons_of_mem c hd))

/-- The scan for commas takes a paired text as one piece. -/
theorem topLevel (h : Paired commas s) {depth : Int} (hdepth : 0 ≤ depth)
    (hcommas : commas = true → 0 < depth) (rest : List Char) :
    Dump.topLevel depth (s ++ rest) = s.foldr extendFirst (Dump.topLevel depth rest) := by
  induction h generalizing depth rest with
  | nil => rfl
  | @char commas c s hopen hclose hcomma _ ih =>
    have hcut : ¬(c = ',' ∧ depth = 0) := by
      rintro ⟨hc, hzero⟩
      have := hcommas (hcomma hc)
      omega
    have hafter : depthAfter depth c = depth := by
      rw [depthAfter, if_neg hopen, if_neg hclose]
    show Dump.topLevel depth (c :: (s ++ rest)) = _
    rw [Dump.topLevel, if_neg hcut, hafter, ih hdepth hcommas]
    rfl
  | @group commas s t _ _ ihs iht =>
    have htext : '[' :: (s ++ ']' :: t) ++ rest = '[' :: (s ++ ']' :: (t ++ rest)) := by simp
    have hinside : 0 < depth + 1 := by omega
    have hopen : depthAfter depth '[' = depth + 1 := rfl
    have hclose : depthAfter (depth + 1) ']' = depth := by
      show depth + 1 - 1 = depth
      omega
    have hcut : ∀ d : Int, ¬('[' = ',' ∧ d = 0) ∧ ¬(']' = ',' ∧ d = 0) := by
      intro d
      simp
    -- The bracket is opened, the text in it is read one level deeper, and the bracket is closed.
    rw [htext, Dump.topLevel, if_neg (hcut _).1, hopen, ihs (by omega) (fun _ => hinside),
      Dump.topLevel, if_neg (hcut _).2, hclose, iht hdepth hcommas]
    simp

/-- The scan from the back for an opening bracket goes past a paired text. -/
theorem untilOpening (h : Paired commas s) (depth : Nat) (rest : List Char) :
    Dump.untilOpening depth (s.reverse ++ rest)
      = (Dump.untilOpening depth rest).map fun r => (s.reverse ++ r.1, r.2) := by
  induction h generalizing depth rest with
  | nil => simp
  | @char commas c s hopen hclose _ _ ih =>
    have htext : (c :: s).reverse ++ rest = s.reverse ++ c :: rest := by simp
    have hstep : Dump.untilOpening depth (c :: rest)
        = (Dump.untilOpening depth rest).map fun r => (c :: r.1, r.2) := by
      rw [Dump.untilOpening] <;> simp_all
    rw [htext, ih, hstep, Option.map_map]
    simp [Function.comp_def]
  | @group commas s t _ _ ihs iht =>
    have htext : ('[' :: (s ++ ']' :: t)).reverse ++ rest
        = t.reverse ++ ']' :: (s.reverse ++ '[' :: rest) := by simp
    have hclose : ∀ cs, Dump.untilOpening depth (']' :: cs)
        = (Dump.untilOpening (depth + 1) cs).map fun r => (']' :: r.1, r.2) := by
      intro cs
      cases depth <;> rfl
    have hopen : Dump.untilOpening (depth + 1) ('[' :: rest)
        = (Dump.untilOpening depth rest).map fun r => ('[' :: r.1, r.2) := rfl
    -- From the back the bracket is entered where it closes, and left where it opens.
    rw [htext, iht, hclose, ihs, hopen, Option.map_map, Option.map_map, Option.map_map]
    simp [Function.comp_def]

end Paired

/-- A bracket at the end of a text is found, whatever stands in front of it. -/
theorem trailingBracket?_append (front : List Char) {inner : List Char} (h : Paired true inner) :
    trailingBracket? (front ++ '[' :: (inner ++ [']'])) = some (front, inner) := by
  have htext : (front ++ '[' :: (inner ++ [']'])).reverse
      = ']' :: (inner.reverse ++ '[' :: front.reverse) := by simp
  have hscan : untilOpening 0 (inner.reverse ++ '[' :: front.reverse)
      = some (inner.reverse, front.reverse) := by
    rw [h.untilOpening 0]
    simp [untilOpening]
  rw [trailingBracket?, htext]
  simp [hscan]

/-! ## §3. Pieces between commas -/

/-- A text that is one piece of a list: its brackets are paired, it has no commas outside of them,
    and it neither begins nor ends with a blank. -/
structure Piece (s : List Char) : Prop where
  paired : Paired false s
  head : ∀ c ∈ s.head?, isBlank c = false
  last : ∀ c ∈ s.getLast?, isBlank c = false

theorem Piece.strip {s : List Char} (h : Piece s) : strip s = s :=
  strip_eq_self h.head h.last

theorem foldr_extendFirst (s : List Char) (ws : List (List Char)) (w : List Char) :
    s.foldr extendFirst (w :: ws) = (s ++ w) :: ws := by
  induction s with
  | nil => rfl
  | cons c s ih =>
    rw [List.foldr_cons, ih]
    rfl

/-- A paired text is one stretch between commas. -/
theorem Paired.splitTopLevel {s : List Char} (h : Paired false s) :
    Dump.splitTopLevel s = [strip s] := by
  have hscan : Dump.topLevel 0 (s ++ []) = s.foldr extendFirst (Dump.topLevel 0 []) :=
    h.topLevel (by omega) (by simp) []
  rw [List.append_nil] at hscan
  rw [Dump.splitTopLevel, hscan, Dump.topLevel, foldr_extendFirst, List.append_nil,
    List.map_singleton]

theorem Paired.splitTopLevel_append {s : List Char} (h : Paired false s) (rest : List Char) :
    Dump.splitTopLevel (s ++ ',' :: rest) = strip s :: Dump.splitTopLevel rest := by
  have hscan : Dump.topLevel 0 (s ++ ',' :: rest)
      = s.foldr extendFirst (Dump.topLevel 0 (',' :: rest)) :=
    h.topLevel (by omega) (by simp) (',' :: rest)
  have hcomma : Dump.topLevel 0 (',' :: rest) = [] :: Dump.topLevel 0 rest := by
    rw [Dump.topLevel, if_pos ⟨rfl, rfl⟩]
  rw [Dump.splitTopLevel, hscan, hcomma, foldr_extendFirst, List.append_nil, List.map_cons,
    Dump.splitTopLevel]

theorem splitTopLevel_piece {s : List Char} (h : Piece s) : splitTopLevel s = [s] := by
  rw [h.paired.splitTopLevel, h.strip]

theorem splitTopLevel_append {s : List Char} (h : Piece s) (rest : List Char) :
    splitTopLevel (s ++ ',' :: rest) = s :: splitTopLevel rest := by
  rw [h.paired.splitTopLevel_append, h.strip]

/-! ## §4. Names -/

theorem isBlank_of_isPlain {c : Char} (h : isPlain c = true) : isBlank c = false := by
  have hblank := (Bool.and_eq_true_iff.1 h).2
  simpa using hblank

theorem Segment.isPlain_of_mem (w : Segment) {c : Char} (hc : c ∈ w.text) : isPlain c = true :=
  List.all_eq_true.1 w.plain c hc

/-- Characters with a meaning of their own do not occur in a name between points. -/
theorem Segment.notMem (w : Segment) {c : Char} (hc : isPlain c = false) : c ∉ w.text := by
  intro hmem
  rw [w.isPlain_of_mem hmem] at hc
  cases hc

theorem Segment.plus_notMem (w : Segment) : '+' ∉ w.text :=
  w.notMem (by decide)

theorem Segment.point_notMem (w : Segment) : '.' ∉ w.text :=
  w.notMem (by decide)

/-- One more name behind some others. -/
theorem dotted_append {ws : List (List Char)} (h : ws ≠ []) (w : List Char) :
    dotted (ws ++ [w]) = dotted ws ++ '.' :: w := by
  induction ws with
  | nil => exact absurd rfl h
  | cons v ws ih =>
    cases ws with
    | nil => simp [dotted]
    | cons u ws =>
      have hrest := ih (by simp)
      simp only [dotted, List.cons_append] at hrest ⊢
      rw [List.intercalate_cons_cons, List.intercalate_cons_cons, hrest]
      simp only [List.append_assoc]

/-- The first name comes first. -/
theorem exists_dotted_cons (w : List Char) (ws : List (List Char)) :
    ∃ rest, dotted (w :: ws) = w ++ rest := by
  cases ws with
  | nil => exact ⟨[], by simp [dotted]⟩
  | cons v ws =>
    refine ⟨['.'] ++ dotted (v :: ws), ?_⟩
    rw [dotted, List.intercalate_cons_cons, List.append_assoc]
    rfl

theorem mem_dotted {ws : List (List Char)} {c : Char} (h : c ∈ dotted ws) :
    c = '.' ∨ ∃ w ∈ ws, c ∈ w := by
  induction ws with
  | nil => cases h
  | cons w ws ih =>
    cases ws with
    | nil => exact .inr ⟨w, List.mem_cons_self, by simpa [dotted] using h⟩
    | cons v ws =>
      rw [dotted, List.intercalate_cons_cons] at h
      rcases List.mem_append.1 h with h | h
      · rcases List.mem_append.1 h with h | h
        · exact .inr ⟨w, List.mem_cons_self, h⟩
        · exact .inl (List.mem_singleton.1 h)
      · obtain hc | ⟨u, hu, hc⟩ := ih h
        · exact .inl hc
        · exact .inr ⟨u, List.mem_cons_of_mem w hu, hc⟩

namespace Name

/-- A name is spelled with plain characters, points and plus signs. -/
theorem mem_print {n : Name} {c : Char} (h : c ∈ n.print) :
    isPlain c = true ∨ c = '.' ∨ c = '+' := by
  induction n with
  | top space own =>
    obtain hc | ⟨w, hw, hc⟩ := mem_dotted h
    · exact .inr (.inl hc)
    · rcases List.mem_append.1 hw with hw | hw
      · obtain ⟨v, -, rfl⟩ := List.mem_map.1 hw
        exact .inl (v.isPlain_of_mem hc)
      · rw [List.mem_singleton.1 hw] at hc
        exact .inl (own.isPlain_of_mem hc)
  | nested outer own ih =>
    rcases List.mem_append.1 h with h | h
    · exact ih h
    · rcases List.mem_cons.1 h with h | h
      · exact .inr (.inr h)
      · exact .inl (own.isPlain_of_mem h)

theorem notMem_print (n : Name) {c : Char} (hplain : isPlain c = false) (hpoint : c ≠ '.')
    (hplus : c ≠ '+') : c ∉ n.print := by
  intro hmem
  rcases mem_print hmem with h | h | h
  · rw [h] at hplain
    cases hplain
  · exact hpoint h
  · exact hplus h

/-- A name outside of other types has no plus sign. -/
theorem plus_notMem_top (space : List Segment) (own : Segment) : '+' ∉ (top space own).print := by
  intro hmem
  obtain hc | ⟨w, hw, hc⟩ := mem_dotted hmem
  · exact absurd hc (by decide)
  · rcases List.mem_append.1 hw with hw | hw
    · obtain ⟨v, -, rfl⟩ := List.mem_map.1 hw
      exact v.plus_notMem hc
    · rw [List.mem_singleton.1 hw] at hc
      exact own.plus_notMem hc

theorem piece_print (n : Name) : Piece n.print := by
  have hblank : ∀ c ∈ n.print, isBlank c = false := by
    intro c hc
    rcases mem_print hc with h | rfl | rfl
    · exact isBlank_of_isPlain h
    · decide
    · decide
  refine ⟨.of_forall fun c hc => ⟨?_, ?_, ?_⟩, fun c hc => ?_, fun c hc => ?_⟩
  · rintro rfl
    exact n.notMem_print (by decide) (by decide) (by decide) hc
  · rintro rfl
    exact n.notMem_print (by decide) (by decide) (by decide) hc
  · rintro rfl
    exact absurd hc (n.notMem_print (by decide) (by decide) (by decide))
  · exact hblank c (List.mem_of_mem_head? hc)
  · exact hblank c (List.mem_of_getLast? hc)

/-- A name begins with a plain character. -/
theorem exists_head (n : Name) : ∃ c s, n.print = c :: s ∧ isPlain c = true := by
  have hdotted : ∀ (w : Segment) (ws : List (List Char)),
      ∃ c s, dotted (w.text :: ws) = c :: s ∧ isPlain c = true := by
    intro w ws
    obtain ⟨c, s, hw⟩ := List.exists_cons_of_ne_nil w.ne
    obtain ⟨rest, hrest⟩ := exists_dotted_cons w.text ws
    have hc : isPlain c = true := w.isPlain_of_mem (hw ▸ List.mem_cons_self)
    exact ⟨c, s ++ rest, by rw [hrest, hw, List.cons_append], hc⟩
  induction n with
  | top space own =>
    cases space with
    | nil => exact hdotted own []
    | cons w space => exact hdotted w (space.map (·.text) ++ [own.text])
  | nested outer own ih =>
    obtain ⟨c, s, houter, hc⟩ := ih
    exact ⟨c, s ++ '+' :: own.text, by rw [print, houter, List.cons_append], hc⟩

theorem print_ne_nil (n : Name) : n.print ≠ [] := by
  obtain ⟨c, s, hn, -⟩ := n.exists_head
  rw [hn]
  exact List.cons_ne_nil c s

end Name

/-! ## §5. References -/

/-- A piece with a paired text behind it that does not end with a blank. -/
theorem Piece.append {a b : List Char} {c : Char} (ha : Piece a) (hne : a ≠ [])
    (hb : Paired false (b ++ [c])) (hc : isBlank c = false) : Piece (a ++ (b ++ [c])) where
  paired := ha.paired.append hb
  head := by
    intro d hd
    obtain ⟨e, s, rfl⟩ := List.exists_cons_of_ne_nil hne
    exact ha.head d hd
  last := by
    intro d hd
    rw [← List.append_assoc, List.getLast?_concat] at hd
    exact Option.some.inj hd ▸ hc

theorem Rank.paired (r : Rank) : Paired true r.text := by
  refine .of_forall fun c hc => ?_
  have hrank := List.all_eq_true.1 r.isRank c hc
  refine ⟨?_, ?_, fun _ => rfl⟩
  · rintro rfl
    exact absurd hrank (by decide)
  · rintro rfl
    exact absurd hrank (by decide)

/-- What qualifies an argument stands behind it, with a comma between them. -/
theorem Style.print_qualified (s : List Char) {q : List Char} (hopen : '[' ∉ q) (hclose : ']' ∉ q) :
    Style.print s (.qualified q hopen hclose) = '[' :: ((s ++ ',' :: q) ++ [']']) := by
  simp [Style.print]

/-- A qualifier has no brackets of its own. -/
theorem Paired.qualify {s q : List Char} (h : Paired false s) (hopen : '[' ∉ q)
    (hclose : ']' ∉ q) : Paired true (s ++ ',' :: q) := by
  have hqualifier : Paired true q := .of_forall fun c hc =>
    ⟨fun heq => hopen (heq ▸ hc), fun heq => hclose (heq ▸ hc), fun _ => rfl⟩
  exact h.allow.append (.char (by decide) (by decide) (fun _ => rfl) hqualifier)

/-- A text between brackets is a piece. -/
theorem Piece.bracket {s : List Char} (h : Paired true s) : Piece ('[' :: (s ++ [']'])) where
  paired := h.bracket
  head := by
    intro c hc
    rw [← Option.some.inj hc]
    decide
  last := by
    intro c hc
    rw [← List.cons_append, List.getLast?_concat] at hc
    rw [← Option.some.inj hc]
    decide

/-- However it is written, an argument is a piece. -/
theorem Piece.style {s : List Char} (h : Piece s) (style : Style) :
    Piece (style.print s) := by
  cases style with
  | plain => exact h
  | bracketed => exact .bracket h.paired.allow
  | qualified q hopen hclose =>
    rw [Style.print_qualified]
    exact .bracket (h.paired.qualify hopen hclose)

theorem Paired.style {s : List Char} (h : Paired false s) (style : Style) :
    Paired false (style.print s) := by
  cases style with
  | plain => exact h
  | bracketed => exact h.allow.bracket
  | qualified q hopen hclose =>
    rw [Style.print_qualified]
    exact (h.qualify hopen hclose).bracket

/-- A reference begins with a plain character. -/
theorem Reference.exists_head : ∀ t : Reference, ∃ c s, t.print = c :: s ∧ isPlain c = true
  | .named n => by
    rw [Reference.print]
    exact n.exists_head
  | .array e r => by
    obtain ⟨c, s, he, hc⟩ := e.exists_head
    exact ⟨c, _, by rw [Reference.print, he, List.cons_append], hc⟩
  | .byRef e => by
    obtain ⟨c, s, he, hc⟩ := e.exists_head
    exact ⟨c, _, by rw [Reference.print, he, List.cons_append], hc⟩
  | .instantiation n _ a => by
    obtain ⟨c, s, hn, hc⟩ := n.exists_head
    exact ⟨c, _, by rw [Reference.print, hn, List.cons_append], hc⟩

theorem Reference.print_ne_nil (t : Reference) : t.print ≠ [] := by
  obtain ⟨c, s, ht, -⟩ := t.exists_head
  rw [ht]
  exact List.cons_ne_nil c s

mutual

/-- The text of a reference is a piece. -/
theorem Reference.piece_print : ∀ t : Reference, Piece t.print
  | .named n => by
    rw [Reference.print]
    exact n.piece_print
  | .array e r => by
    rw [Reference.print, ← List.cons_append]
    exact e.piece_print.append e.print_ne_nil r.paired.bracket (by decide)
  | .byRef e => by
    have hmark : Paired false ([] ++ ['&']) :=
      .char (by decide) (by decide) (by decide) .nil
    rw [Reference.print]
    exact e.piece_print.append e.print_ne_nil hmark (by decide)
  | .instantiation n _ a => by
    rw [Reference.print, ← List.cons_append]
    exact n.piece_print.append n.print_ne_nil a.paired_print.bracket (by decide)

/-- The text of arguments is paired, with commas between them. -/
theorem Arguments.paired_print : ∀ a : Arguments, Paired true a.print
  | .last style t => by
    rw [Arguments.print]
    exact (t.piece_print.style style).paired.allow
  | .next style t rest => by
    rw [Arguments.print]
    exact (t.piece_print.style style).paired.allow.append
      (.char (by decide) (by decide) (fun _ => rfl) rest.paired_print)

end

/-! ## §6. Arguments -/

theorem argumentOf_bracket (s : List Char) :
    argumentOf ('[' :: (s ++ [']'])) = ((splitTopLevel s).head?).getD [] := by
  have hends : ('[' :: (s ++ [']'])).head? = some '[' ∧
      ('[' :: (s ++ [']'])).getLast? = some ']' := by
    refine ⟨rfl, ?_⟩
    rw [← List.cons_append, List.getLast?_concat]
  have hinner : (('[' :: (s ++ [']'])).drop 1).dropLast = s := by
    rw [List.drop_one, List.tail_cons, List.dropLast_concat]
  rw [argumentOf, if_pos hends, hinner]

theorem argumentOf_of_head {s : List Char} (h : s.head? ≠ some '[') : argumentOf s = s := by
  rw [argumentOf, if_neg fun hends => h hends.1]

/-- An argument is read back however it is written.  Plain, it does not begin with a bracket, or
    it would be taken for one that is written between brackets. -/
theorem argumentOf_strip_style {s : List Char} (h : Paired false s)
    (hopen : (strip s).head? ≠ some '[') (style : Style) :
    argumentOf (strip (style.print s)) = strip s := by
  cases style with
  | plain => exact argumentOf_of_head hopen
  | bracketed =>
    rw [Style.print, (Piece.bracket h.allow).strip, argumentOf_bracket, h.splitTopLevel]
    rfl
  | qualified q hq hq' =>
    rw [Style.print_qualified, (Piece.bracket (h.qualify hq hq')).strip, argumentOf_bracket,
      h.splitTopLevel_append]
    rfl

/-- No reference begins with a bracket. -/
theorem Reference.head?_print_ne (t : Reference) : t.print.head? ≠ some '[' := by
  obtain ⟨c, s, ht, hc⟩ := t.exists_head
  intro hopen
  rw [ht, List.head?_cons, Option.some.injEq] at hopen
  rw [hopen] at hc
  exact absurd hc (by decide)

theorem argumentOf_style (t : Reference) (style : Style) :
    argumentOf (style.print t.print) = t.print := by
  have hpiece := t.piece_print
  have hread : argumentOf (strip (style.print t.print)) = strip t.print := by
    refine argumentOf_strip_style hpiece.paired ?_ style
    rw [hpiece.strip]
    exact t.head?_print_ne
  rwa [(hpiece.style style).strip, hpiece.strip] at hread

/-- The arguments of a generic type are read back in order. -/
theorem argumentsOf_print : ∀ a : Arguments,
    argumentsOf a.print = a.toList.map Reference.identity
  | .last style t => by
    rw [Arguments.print, argumentsOf, splitTopLevel_piece (t.piece_print.style style),
      List.map_singleton, argumentOf_style]
    rfl
  | .next style t rest => by
    have hrest := argumentsOf_print rest
    rw [argumentsOf] at hrest
    rw [Arguments.print, argumentsOf, splitTopLevel_append (t.piece_print.style style),
      List.map_cons, argumentOf_style, hrest]
    rfl

/-- No arguments can be taken for the rank of an array. -/
theorem not_isRank_print (a : Arguments) : isRank a.print = false := by
  have hfirst : ∀ (t : Reference) (style : Style) (rest : List Char),
      isRank (style.print t.print ++ rest) = false := by
    intro t style rest
    obtain ⟨c, s, ht, hc⟩ := t.exists_head
    have hplain : (c == ',' || c == '*' || c == ' ') = false := by
      refine Bool.eq_false_iff.2 fun hrank => ?_
      rw [Bool.or_eq_true, Bool.or_eq_true, beq_iff_eq, beq_iff_eq, beq_iff_eq] at hrank
      rcases hrank with (rfl | rfl) | rfl
      all_goals exact absurd hc (by decide)
    cases style with
    | plain => rw [Style.print, ht, List.cons_append, isRank, List.all_cons, hplain, Bool.false_and]
    | bracketed => rfl
    | qualified q hopen hclose => rfl
  cases a with
  | last style t =>
    rw [Arguments.print, ← List.append_nil (style.print t.print)]
    exact hfirst t style []
  | next style t rest =>
    rw [Arguments.print]
    exact hfirst t style _

/-! ## §7. Forms -/

/-- The outermost layer of a reference. -/
def Reference.form : Reference → Form
  | named n => if n.identity ∈ Form.voids then .void else .named (n.outer?.map Name.identity)
  | array e r => .array e.identity r.text
  | byRef e => .byRef e.identity
  | instantiation n _ a =>
    .instantiation (n.outer?.map Name.identity) n.identity (a.toList.map identity)

/-- What stands before the last plus sign is the type around a nested one. -/
theorem outerOf_print (n : Name) : outerOf n.print = n.outer?.map Name.identity := by
  cases n with
  | top space own =>
    rw [outerOf, beforeLast_of_notMem (Name.plus_notMem_top space own)]
    rfl
  | nested outer own =>
    obtain ⟨c, s, houter, -⟩ := outer.exists_head
    rw [Name.print, outerOf, beforeLast_append _ own.plus_notMem, houter]
    simp [Name.outer?, Name.identity, houter]

theorem shapeOf_print (n : Name) : shapeOf n.print = n.print :=
  beforeFirst_of_notMem (n.notMem_print (by decide) (by decide) (by decide))

theorem shapeOf_bracket (n : Name) (rest : List Char) :
    shapeOf (n.print ++ '[' :: rest) = n.print :=
  beforeFirst_append (n.notMem_print (by decide) (by decide) (by decide)) rest

/-- The type that returns nothing is spelled with plain characters and points. -/
theorem notMem_voids {id : Identity} (h : '[' ∈ id.toList ∨ '&' ∈ id.toList) :
    id ∉ Form.voids := by
  have hvoids : ∀ v ∈ Form.voids, '[' ∉ v.toList ∧ '&' ∉ v.toList := by decide
  intro hid
  rcases h with h | h
  · exact (hvoids id hid).1 h
  · exact (hvoids id hid).2 h

theorem Reference.toList_identity (t : Reference) : t.identity.toList = t.print :=
  String.toList_ofList

/-- A text that ends with a square bracket. -/
theorem ofIdentity_bracket {front inner : List Char} (hfront : front ≠ [])
    (hinner : Paired true inner) :
    Form.ofIdentity (String.ofList (front ++ '[' :: (inner ++ [']'])))
      = if isRank inner then .array (String.ofList front) inner
        else Form.ofName (front ++ '[' :: (inner ++ [']'])) (some (front, inner)) := by
  have hlast : (front ++ '[' :: (inner ++ [']'])).getLast? ≠ some '&' := by
    rw [← List.cons_append, ← List.append_assoc, List.getLast?_concat]
    decide
  have hvoid : String.ofList (front ++ '[' :: (inner ++ [']'])) ∉ Form.voids := by
    refine notMem_voids (.inl ?_)
    rw [String.toList_ofList]
    exact List.mem_append_right front List.mem_cons_self
  obtain ⟨c, s, rfl⟩ := List.exists_cons_of_ne_nil hfront
  rw [Form.ofIdentity, if_neg hvoid, String.toList_ofList, if_neg hlast,
    trailingBracket?_append _ hinner]

/-- Reading takes off the layer that printing put on. -/
theorem ofIdentity_identity (t : Reference) : Form.ofIdentity t.identity = t.form := by
  cases t with
  | named n =>
    have hmark : n.print.getLast? ≠ some '&' := by
      intro h
      exact n.notMem_print (by decide) (by decide) (by decide) (List.mem_of_getLast? h)
    have hbracket : trailingBracket? n.print = none := by
      rw [trailingBracket?]
      split
      · next cs hcs =>
        have hmem : ']' ∈ n.print := by
          rw [← List.mem_reverse, hcs]
          exact List.mem_cons_self
        exact absurd hmem (n.notMem_print (by decide) (by decide) (by decide))
      · rfl
    have hname : Form.ofName n.print none = .named (n.outer?.map Name.identity) := by
      unfold Form.ofName
      rw [shapeOf_print, outerOf_print]
    rw [Form.ofIdentity, Reference.identity_named, Name.identity, String.toList_ofList,
      if_neg hmark, hbracket]
    dsimp only
    rw [hname]
    rfl
  | array e r =>
    rw [Reference.identity, Reference.print, ofIdentity_bracket e.print_ne_nil r.paired,
      if_pos r.isRank]
    rfl
  | byRef e =>
    have hvoid : String.ofList (e.print ++ ['&']) ∉ Form.voids := by
      refine notMem_voids (.inr ?_)
      rw [String.toList_ofList]
      exact List.mem_append_right e.print List.mem_cons_self
    rw [Reference.identity, Reference.print, Form.ofIdentity, if_neg hvoid, String.toList_ofList,
      List.getLast?_concat, if_pos rfl, List.dropLast_concat]
    rfl
  | instantiation n hn a =>
    have hrank : ¬isRank a.print = true := by
      rw [not_isRank_print]
      exact Bool.false_ne_true
    rw [Reference.identity, Reference.print, ofIdentity_bracket n.print_ne_nil a.paired_print,
      if_neg hrank]
    unfold Form.ofName
    rw [shapeOf_bracket, outerOf_print]
    split
    · next inner hbracket =>
      have hinner : a.print = inner := by
        rw [Option.some.injEq, Prod.mk.injEq] at hbracket
        exact hbracket.2
      have hgeneric : '\x60' ∈ n.print := hn
      dsimp only
      rw [if_pos hgeneric, ← hinner, argumentsOf_print]
      rfl
    · next hno =>
      obtain ⟨c, s, hprint⟩ := List.exists_cons_of_ne_nil n.print_ne_nil
      exact absurd (by rw [hprint]) (hno c s a.print)

end EmmyStubs.Dump
