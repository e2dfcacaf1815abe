import Mathlib.Data.List.TakeWhile
import EmmyStubs.Declaration.Failure
import EmmyStubs.Proofs.Linewise

/-! # Reasons in normal form

    Whatever the reason of a failure looks like, its note is one comment line.

    * **`words_eq_splitOnP`**: the words of a text are what is left of its stretches between blanks
      without the empty ones.
    * **`SingleSpaced`**: a text whose only blanks are spaces between two words.  Such a text is its
      words with spaces between them (`intercalate_words`), and stays such a text when it is cut
      and something is put where the cut is (`SingleSpaced.cut`).
    * **`cleanReason_normal`**: so a clean reason is in one line, is no longer than the limit and
      the mark of the cut, and is clean already.
-/

namespace EmmyStubs

namespace Text

/-! ## §1. Words -/

/-- A word: something, and no blank in it. -/
def IsWord (w : List Char) : Prop :=
  w ≠ [] ∧ ∀ c ∈ w, isBlank c = false

variable {c : Char} {s t w : List Char} {ws : List (List Char)}

theorem words_cons_of_blank (hc : isBlank c = true) (s : List Char) : words (c :: s) = words s := by
  cases s <;> simp [words, hc]

theorem words_singleton (hc : isBlank c = false) : words [c] = [[c]] := by
  simp [words, hc]

theorem words_cons_cons (hc : isBlank c = false) (d : Char) (s : List Char) :
    words (c :: d :: s)
      = if isBlank d then [c] :: words (d :: s) else extendFirst c (words (d :: s)) := by
  rw [words, if_neg (by simp [hc])]

/-- The words are the stretches between blanks, where there is something between two blanks. -/
theorem words_eq_splitOnP (s : List Char) :
    words s = (s.splitOnP isBlank).filter (· ≠ []) := by
  induction s with
  | nil => simp [words]
  | cons c s ih =>
    rw [List.splitOnP_cons_eq_if_modifyHead]
    by_cases hc : isBlank c = true
    · rw [if_pos hc, List.filter_cons_of_neg (by simp), ← ih, words_cons_of_blank hc]
    rw [if_neg hc]
    rw [Bool.not_eq_true] at hc
    -- The first stretch goes on with what stands behind the character.
    cases s with
    | nil => simp [words_singleton hc]
    | cons d s =>
      rw [List.splitOnP_cons_eq_if_modifyHead] at ih ⊢
      rw [words_cons_cons hc, ih]
      by_cases hd : isBlank d = true
      · simp [hd]
      · obtain ⟨v, vs, hsplit⟩ := List.exists_cons_of_ne_nil (List.splitOnP_ne_nil isBlank s)
        simp [hd, hsplit, extendFirst]

/-- A blank ends a word, if there is one. -/
theorem words_append_cons (hc : isBlank c = true) (s t : List Char) :
    words (s ++ c :: t) = words s ++ words t := by
  simp only [words_eq_splitOnP, List.splitOnP_append_cons s t hc, List.filter_append]

theorem IsWord.words_eq (h : IsWord w) : words w = [w] := by
  rw [words_eq_splitOnP, List.splitOnP_eq_singleton h.2]
  simp [h.1]

/-- Only blanks have no word between them. -/
theorem words_eq_nil_iff : words s = [] ↔ ∀ c ∈ s, isBlank c = true := by
  induction s with
  | nil => simp [words]
  | cons c s ih =>
    rw [List.forall_mem_cons]
    by_cases hc : isBlank c = true
    · rw [words_cons_of_blank hc, ih]
      simp [hc]
    · have hnone : ∀ ws, extendFirst c ws ≠ [] := by
        intro ws
        cases ws <;> simp [extendFirst]
      refine iff_of_false ?_ fun hall => hc hall.1
      rw [Bool.not_eq_true] at hc
      cases s with
      | nil => simp [words_singleton hc]
      | cons d s =>
        rw [words_cons_cons hc]
        split
        · exact List.cons_ne_nil _ _
        · exact hnone _

theorem isWord_of_mem_words (h : w ∈ words s) : IsWord w := by
  rw [words_eq_splitOnP, List.mem_filter] at h
  refine ⟨by simpa using h.2, ?_⟩
  have hmem := h.1
  clear h
  induction s generalizing w with
  | nil =>
    rw [List.splitOnP_nil, List.mem_singleton] at hmem
    simp [hmem]
  | cons c s ih =>
    rw [List.splitOnP_cons_eq_if_modifyHead] at hmem
    by_cases hc : isBlank c = true
    · rw [if_pos hc] at hmem
      rcases List.mem_cons.1 hmem with rfl | hmem
      · simp
      · exact ih hmem
    · obtain ⟨v, vs, hsplit⟩ := List.exists_cons_of_ne_nil (List.splitOnP_ne_nil isBlank s)
      rw [if_neg hc, hsplit, List.modifyHead_cons] at hmem
      rcases List.mem_cons.1 hmem with rfl | hmem
      · exact List.forall_mem_cons.2 ⟨by simpa using hc, ih (hsplit ▸ List.mem_cons_self)⟩
      · exact ih (hsplit ▸ List.mem_cons_of_mem v hmem)

/-! ## §2. Single spaces -/

/-- Every blank is a space, and has something other than a blank on both sides. -/
def SingleSpaced (s : List Char) : Prop :=
  ∀ front c back, s = front ++ c :: back → isBlank c = true →
    c = ' ' ∧ (∃ d ∈ front.getLast?, isBlank d = false) ∧ ∃ d ∈ back.head?, isBlank d = false

/-- A text without blanks. -/
theorem singleSpaced_of_forall (h : ∀ c ∈ s, isBlank c = false) : SingleSpaced s := by
  intro front c back hs hc
  have hmem : c ∈ s := hs ▸ List.mem_append_right front List.mem_cons_self
  rw [h c hmem] at hc
  cases hc

/-- One more word in front. -/
theorem IsWord.singleSpaced_append (hw : IsWord w) (hs : SingleSpaced s)
    (hhead : ∃ d ∈ s.head?, isBlank d = false) : SingleSpaced (w ++ ' ' :: s) := by
  have hlast : ∃ d ∈ w.getLast?, isBlank d = false :=
    ⟨w.getLast hw.1, List.getLast?_eq_some_getLast hw.1, hw.2 _ (List.getLast_mem hw.1)⟩
  intro front c back heq hc
  rcases List.append_eq_append_iff.1 heq with ⟨as, rfl, has⟩ | ⟨bs, rfl, hbs⟩
  · cases as with
    | nil =>
      obtain ⟨rfl, rfl⟩ := List.cons.inj has
      rw [List.append_nil]
      exact ⟨rfl, hlast, hhead⟩
    | cons a as =>
      -- The blank stands behind the word and the space.
      obtain ⟨rfl, rfl⟩ := List.cons.inj has
      obtain ⟨hspace, ⟨d, hd, hblank⟩, hback⟩ := hs as c back rfl hc
      refine ⟨hspace, ⟨d, ?_, hblank⟩, hback⟩
      cases as with
      | nil => cases hd
      | cons b as => simpa [List.getLast?_append, List.getLast?_cons_cons] using hd
  · cases bs with
    | nil =>
      obtain ⟨rfl, rfl⟩ := List.cons.inj hbs
      rw [List.append_nil] at hlast
      exact ⟨rfl, hlast, hhead⟩
    | cons b bs =>
      obtain ⟨rfl, -⟩ := List.cons.inj hbs
      rw [hw.2 c (by simp)] at hc
      cases hc

/-- What stands behind a blank. -/
theorem SingleSpaced.behind (h : SingleSpaced (t ++ c :: s)) (hc : isBlank c = true) :
    SingleSpaced s := by
  intro front d back hs hd
  have htext : t ++ c :: s = (t ++ c :: front) ++ d :: back := by simp [hs]
  obtain ⟨hspace, ⟨e, he, hblank⟩, hback⟩ := h _ d back htext hd
  refine ⟨hspace, ⟨e, ?_, hblank⟩, hback⟩
  cases front with
  | nil =>
    have hce : c = e := by simpa using he
    rw [← hce, hc] at hblank
    cases hblank
  | cons b front => simpa [List.getLast?_append, List.getLast?_cons_cons] using he

/-- A text that is cut, with something other than a blank at the cut. -/
theorem SingleSpaced.cut (h : SingleSpaced (s ++ t)) (hc : isBlank c = false) :
    SingleSpaced (s ++ [c]) := by
  intro front d back heq hd
  rcases List.eq_nil_or_concat back with rfl | ⟨rest, e, rfl⟩
  · -- The text ends with the character at the cut.
    have hcd : c = d := by simpa using congrArg List.getLast? heq
    rw [← hcd, hc] at hd
    cases hd
  · rw [List.concat_eq_append, ← List.cons_append, ← List.append_assoc] at heq
    obtain ⟨rfl, hce⟩ := List.append_inj' heq rfl
    obtain ⟨hspace, hfront, f, hf, hblank⟩ := h front d (rest ++ t) (by simp) hd
    refine ⟨hspace, hfront, ?_⟩
    rw [List.concat_eq_append, ← hce]
    cases rest with
    | nil => exact ⟨c, rfl, hc⟩
    | cons g rest => exact ⟨f, hf, hblank⟩

/-- Words with single spaces between them. -/
theorem singleSpaced_intercalate (h : ∀ w ∈ ws, IsWord w) :
    SingleSpaced ([' '].intercalate ws) := by
  induction ws with
  | nil => exact singleSpaced_of_forall (by simp)
  | cons w ws ih =>
    obtain ⟨hw, hws⟩ := List.forall_mem_cons.1 h
    cases ws with
    | nil =>
      rw [List.intercalate_singleton]
      exact singleSpaced_of_forall hw.2
    | cons v ws =>
      have hhead : ∃ d ∈ ([' '].intercalate (v :: ws)).head?, isBlank d = false := by
        obtain ⟨hv, -⟩ := List.forall_mem_cons.1 hws
        obtain ⟨d, v, rfl⟩ := List.exists_cons_of_ne_nil hv.1
        refine ⟨d, ?_, hv.2 d List.mem_cons_self⟩
        cases ws <;> simp [List.intercalate_cons_cons]
      rw [List.intercalate_cons_cons, List.append_assoc, List.singleton_append]
      exact hw.singleSpaced_append (ih hws) hhead

/-- A text is its words, with single spaces between them, if it has no other blanks. -/
theorem intercalate_words (h : SingleSpaced s) : [' '].intercalate (words s) = s := by
  -- The induction is on the length, for what stands behind the first word is shorter.
  induction hlength : s.length using Nat.strongRecOn generalizing s with
  | ind n ih =>
    have hsplit := List.takeWhile_append_dropWhile (p := fun c => !isBlank c) (l := s)
    have hword : ∀ c ∈ s.takeWhile (fun c => !isBlank c), isBlank c = false := by
      intro c hc
      simpa using List.mem_takeWhile_imp hc
    generalize s.takeWhile (fun c => !isBlank c) = w at hsplit hword
    cases hrest : s.dropWhile (fun c => !isBlank c) with
    | nil =>
      rw [hrest, List.append_nil] at hsplit
      subst hsplit
      by_cases hw : w = []
      · simp [hw, words]
      · rw [IsWord.words_eq ⟨hw, hword⟩, List.intercalate_singleton]
    | cons c rest =>
      rw [hrest] at hsplit
      have hc : isBlank c = true := by
        have hhead := List.head?_dropWhile_not (fun c => !isBlank c) s
        simpa [hrest] using hhead
      obtain ⟨rfl, ⟨d, hd, -⟩, e, he, hblank⟩ := h w c rest hsplit.symm hc
      have hw : w ≠ [] := by
        rintro rfl
        cases hd
      have hne : words rest ≠ [] := by
        intro hnil
        rw [words_eq_nil_iff.1 hnil e (List.mem_of_mem_head? he)] at hblank
        cases hblank
      obtain ⟨v, vs, hvs⟩ := List.exists_cons_of_ne_nil hne
      have hshorter : rest.length < n := by
        rw [← hlength, ← hsplit]
        simp only [List.length_append, List.length_cons]
        omega
      have hbehind : [' '].intercalate (words rest) = rest :=
        ih rest.length hshorter (SingleSpaced.behind (hsplit ▸ h) hc) rfl
      rw [← hsplit, words_append_cons hc, IsWord.words_eq ⟨hw, hword⟩, hvs,
        List.singleton_append, List.intercalate_cons_cons, ← hvs, hbehind, List.append_assoc,
        List.singleton_append]

/-! ## §3. Line breaks -/

/-- The closed ranges of code points that end a line, ascending and apart. -/
def lineBreakRanges : List (Nat × Nat) :=
  [(0x0A, 0x0D), (0x1C, 0x1E), (0x85, 0x85), (0x2028, 0x2029)]

/-- A character that ends a line. -/
def isLineBreak (c : Char) : Bool :=
  inRanges lineBreakRanges c.toNat

theorem not_isLineBreak_of_all (h : s.all (fun c => !isLineBreak c) = true) :
    ∀ c ∈ s, isLineBreak c = false := by
  intro c hc
  simpa using List.all_eq_true.1 h c hc

/-- What ends a line is a blank, but no space. -/
theorem isBlank_of_isLineBreak (h : isLineBreak c = true) : isBlank c = true ∧ c ≠ ' ' := by
  constructor
  · simp only [isLineBreak, isBlank, inRanges, lineBreakRanges, blankRanges, List.any_cons,
      List.any_nil, Bool.or_eq_true, Bool.and_eq_true, decide_eq_true_eq, Bool.false_eq_true,
      or_false] at h ⊢
    omega
  · rintro rfl
    exact absurd h (by decide)

/-- Single spaces end no line. -/
theorem SingleSpaced.not_isLineBreak (h : SingleSpaced s) : ∀ c ∈ s, isLineBreak c = false := by
  intro c hc
  obtain ⟨front, back, hs⟩ := List.append_of_mem hc
  refine Bool.eq_false_iff.2 fun hbreak => ?_
  obtain ⟨hblank, hspace⟩ := isBlank_of_isLineBreak hbreak
  exact hspace (h front c back hs hblank).1

end Text

/-! ## §4. Reasons -/

namespace Failure

open EmmyStubs.Text

variable (reason : List Char)

theorem singleSpaced_cleanReason : SingleSpaced (cleanReason reason) := by
  have hline : SingleSpaced ([' '].intercalate (words reason)) :=
    singleSpaced_intercalate fun _ hw => isWord_of_mem_words hw
  unfold cleanReason
  dsimp only
  split
  · exact hline
  · rw [← List.take_append_drop reasonLimit ([' '].intercalate (words reason))] at hline
    exact hline.cut (by decide)

theorem length_cleanReason_le : (cleanReason reason).length ≤ reasonLimit + 1 := by
  unfold cleanReason
  dsimp only
  split
  · omega
  · rw [List.length_append, List.length_take, List.length_singleton]
    omega

/-- A reason of blanks is none. -/
theorem cleanReason_eq_nil_iff : cleanReason reason = [] ↔ ∀ c ∈ reason, isBlank c = true := by
  have hline : [' '].intercalate (words reason) = [] ↔ words reason = [] := by
    constructor
    · intro hnil
      cases hws : words reason with
      | nil => rfl
      | cons w ws =>
        have hw : IsWord w := isWord_of_mem_words (hws ▸ List.mem_cons_self)
        rw [hws] at hnil
        cases ws with
        | nil => exact absurd (by simpa using hnil) hw.1
        | cons v ws => simp [List.intercalate_cons_cons] at hnil
    · intro hws
      simp [hws]
  rw [← words_eq_nil_iff, ← hline]
  unfold cleanReason
  dsimp only
  split
  · exact Iff.rfl
  · next hlong =>
    refine iff_of_false (by simp) fun hnil => ?_
    simp [hnil] at hlong

/-- What is clean stays as it is. -/
theorem cleanReason_cleanReason : cleanReason (cleanReason reason) = cleanReason reason := by
  have hsame := intercalate_words (singleSpaced_cleanReason reason)
  have hfixed : ∀ r, cleanReason reason = r → r.length ≤ reasonLimit →
      cleanReason (cleanReason reason) = r := by
    intro r hr hshort
    rw [hr] at hsame ⊢
    rw [cleanReason, hsame, if_pos hshort]
  generalize hline : [' '].intercalate (words reason) = line
  by_cases hshort : line.length ≤ reasonLimit
  · have hclean : cleanReason reason = line := by
      rw [cleanReason, hline, if_pos hshort]
    rw [hfixed line hclean hshort, hclean]
  · -- The cut is made at the same place again, and the mark of the cut is put back.
    have hclean : cleanReason reason = line.take reasonLimit ++ ['…'] := by
      rw [cleanReason, hline, if_neg hshort]
    have htake : (line.take reasonLimit).length = reasonLimit := by
      rw [List.length_take]
      omega
    have hlong : ¬(line.take reasonLimit ++ ['…']).length ≤ reasonLimit := by
      rw [List.length_append, htake, List.length_singleton]
      omega
    rw [hclean] at hsame ⊢
    rw [cleanReason, hsame, if_neg hlong, List.take_left' htake]

/-- What a clean reason is: nothing if the reason is blank, and else its words in one line, cut
    behind the limit. -/
structure NormalForm (reason cleaned : List Char) : Prop where
  none : cleaned = [] ↔ ∀ c ∈ reason, isBlank c = true
  length : cleaned.length ≤ 201
  spaced : SingleSpaced cleaned
  cut : ∀ line, [' '].intercalate ((reason.splitOnP isBlank).filter (· ≠ [])) = line →
    cleaned = if line.length ≤ 200 then line else line.take 200 ++ ['…']
  clean : cleanReason cleaned = cleaned

theorem normalForm_cleanReason : NormalForm reason (cleanReason reason) where
  none := cleanReason_eq_nil_iff reason
  length := length_cleanReason_le reason
  spaced := singleSpaced_cleanReason reason
  cut := by
    intro line hline
    rw [cleanReason, words_eq_splitOnP, hline]
    rfl
  clean := cleanReason_cleanReason reason

/-- What a note says of a reason. -/
def shown (reason : String) : String :=
  if reason.toList.all isBlank then "unknown error" else String.ofList (cleanReason reason.toList)

/-- The comment line of a note. -/
def commentLine (identity : Identity) (reason : String) : String :=
  "---Translation failed for " ++ identity ++ ": " ++ shown reason

theorem note_eq (identity : Identity) (reason : String) :
    note identity (some reason) = commentLine identity reason ++ "\n" := by
  have hnone : String.ofList (cleanReason reason.toList) = "" ↔ reason.toList.all isBlank := by
    rw [List.all_eq_true, ← cleanReason_eq_nil_iff, ← String.toList_inj, String.toList_ofList]
    rfl
  unfold note commentLine shown
  simp only [Option.getD_some, hnone]

/-- Whatever the reason, what is said of it ends no line. -/
theorem not_isLineBreak_shown (reason : String) :
    ∀ c ∈ (shown reason).toList, isLineBreak c = false := by
  unfold shown
  split
  · exact not_isLineBreak_of_all (by decide)
  · rw [String.toList_ofList]
    exact (singleSpaced_cleanReason reason.toList).not_isLineBreak

/-- What ends a line in a comment line comes from the identity. -/
theorem mem_of_isLineBreak {identity : Identity} {reason : String} {c : Char}
    (hc : c ∈ (commentLine identity reason).toList) (hend : isLineBreak c = true) :
    c ∈ identity.toList := by
  have hwords : ∀ c ∈ "---Translation failed for ".toList, isLineBreak c = false :=
    not_isLineBreak_of_all (by decide +kernel)
  have hcolon : ∀ c ∈ ": ".toList, isLineBreak c = false := not_isLineBreak_of_all (by decide)
  have happend : ∀ {s t : String}, c ∈ (s ++ t).toList → c ∈ s.toList ∨ c ∈ t.toList := by
    intro s t hmem
    rwa [String.toList_append, List.mem_append] at hmem
  unfold commentLine at hc
  rcases happend hc with hc | hc
  · rcases happend hc with hc | hc
    · rcases happend hc with hc | hc
      · rw [hwords c hc] at hend
        cases hend
      · exact hc
    · rw [hcolon c hc] at hend
      cases hend
  · rw [not_isLineBreak_shown reason c hc] at hend
    cases hend

/-- A reason is shown in normal form, and its note is one comment line: every line break in it but
    the one behind it comes from the identity. -/
theorem cleanReason_normal (reason : String) :
    NormalForm reason.toList (cleanReason reason.toList) ∧
      ∀ identity : Identity,
        note identity (some reason) = commentLine identity reason ++ "\n" ∧
        (∀ c ∈ (commentLine identity reason).toList, isLineBreak c = true → c ∈ identity.toList) ∧
        (Unbroken identity →
          linesOf (note identity (some reason)) = [commentLine identity reason]) := by
  refine ⟨normalForm_cleanReason reason.toList, fun identity => ?_⟩
  refine ⟨note_eq identity reason, fun c => mem_of_isLineBreak, fun hidentity => ?_⟩
  have hline : Unbroken (commentLine identity reason) :=
    fun hmem => hidentity (mem_of_isLineBreak hmem (by decide))
  have hlines : note identity (some reason) = ofLines [commentLine identity reason] := by
    rw [note_eq, ofLines_cons, ofLines_nil, String.append_empty]
  rw [hlines, linesOf_ofLines (by simpa using hline)]

example : cleanReason "\t member  A\u2028 is missing ".toList = "member A is missing".toList := by
  decide +kernel

end Failure

end EmmyStubs
