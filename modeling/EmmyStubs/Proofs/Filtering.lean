import EmmyStubs.Proofs.Calling
import EmmyStubs.Proofs.Chains
import EmmyStubs.Proofs.Patterns

/-! # What filters select

    Selecting goes through the candidates with the filters, asks a session for names, and takes a
    short cut where everything is wanted.

    * **`Declarable`**: what makes a type a candidate.  All types around it count, however deep it
      is nested (`isCandidate_iff`).
    * **`Hit`**: what it means that a filter hits a type.  `everything` hits all (`hit_everything`),
      so the short cut leaves nothing out and adds nothing.
    * **`select_exact`**: what is selected are the types that are candidates and are hit by some
      filter, in their order.  So neither the order of the filters nor their repetitions matter,
      and more filters never select less.
-/

namespace EmmyStubs.Selection

variable {g : Graph} {types : List Descriptor} {filters filters' : List String} {d : Descriptor}

/-! ## §1. Candidates -/

/-- A type that may be declared: it is described, of a kind that is declared, not generic, and
    written by a person, as is every type around it. -/
structure Declarable (g : Graph) (d : Descriptor) : Prop where
  kind : d.kind.isDeclarable = true
  described : d.isExternal = false
  plain : d.isGeneric = false
  ordinary : d.isSpecialName = false ∧ d.isGeneratedCode = false
  written : ∀ e, g.Has e → g.Arrives (·.declaring) d.identity e.identity →
    e.isCompilerGenerated = false

/-- The walk outwards finds a type made by a compiler wherever there is one. -/
theorem isCompilerGenerated_eq_false (hd : g.Has d) :
    g.isCompilerGenerated d = false ↔ ∀ e, g.Has e →
      g.Arrives (·.declaring) d.identity e.identity → e.isCompilerGenerated = false := by
  unfold Graph.isCompilerGenerated
  rw [List.any_eq_false]
  simp only [Graph.mem_cons_chain_iff hd, Bool.not_eq_true, and_imp]

theorem isCandidate_iff (hd : g.Has d) : isCandidate g d = true ↔ Declarable g d := by
  unfold isCandidate
  simp only [Bool.and_eq_true, Bool.not_eq_true']
  rw [isCompilerGenerated_eq_false hd]
  constructor
  · rintro ⟨⟨⟨⟨⟨hkind, hdescribed⟩, hplain⟩, hspecial⟩, hcode⟩, hwritten⟩
    exact ⟨hkind, hdescribed, hplain, ⟨hspecial, hcode⟩, hwritten⟩
  · rintro ⟨hkind, hdescribed, hplain, ⟨hspecial, hcode⟩, hwritten⟩
    exact ⟨⟨⟨⟨⟨hkind, hdescribed⟩, hplain⟩, hspecial⟩, hcode⟩, hwritten⟩

/-! ## §2. Hits -/

/-- A filter with a star hits a type whose qualified name comes of it when every star is replaced
    by some text; any other filter hits a type whose identity or qualified name it is. -/
def Hit (g : Graph) (d : Descriptor) (filter : String) : Prop :=
  ('*' ∈ filter.toList ∧ StandsFor filter.toList (g.qualifiedName d).toList) ∨
    ('*' ∉ filter.toList ∧ (filter = d.identity ∨ filter = g.qualifiedName d))

theorem hits_iff {filter : String} :
    hits d.identity (g.qualifiedName d) filter = true ↔ Hit g d filter := by
  unfold hits Hit
  by_cases hstar : '*' ∈ filter.toList
  · rw [if_pos (List.contains_iff_mem.2 hstar)]
    simp only [hstar, true_and, not_true, false_and, or_false]
    exact matchesText_iff
  · rw [if_neg fun h => hstar (List.contains_iff_mem.1 h)]
    simp only [hstar, false_and, not_false_iff, true_and, false_or, Bool.or_eq_true, beq_iff_eq]

theorem hit_everything : Hit g d everything := by
  have hall : StandsFor ['*'] ((g.qualifiedName d).toList ++ []) := .star _ .nil
  rw [List.append_nil] at hall
  exact .inl ⟨List.mem_singleton_self '*', hall⟩

/-! ## §3. Selections -/

/-- A type that is to be selected. -/
def Selected (g : Graph) (filters : List String) (d : Descriptor) : Prop :=
  Declarable g d ∧ ∃ f ∈ filters, Hit g d f

theorem Selected.mono (hsub : filters ⊆ filters') (h : Selected g filters d) :
    Selected g filters' d := by
  obtain ⟨hcandidate, f, hf, hhit⟩ := h
  exact ⟨hcandidate, f, hsub hf, hhit⟩

theorem selected_iff (hd : g.Has d) : Selected g filters d ↔
    isCandidate g d = true ∧ filters.any (hits d.identity (g.qualifiedName d)) = true := by
  rw [Selected, isCandidate_iff hd, List.any_eq_true]
  simp only [hits_iff]

/-- Where everything is wanted, the filters hit all types. -/
theorem any_hits_of_everything (h : everything ∈ filters) :
    filters.any (hits d.identity (g.qualifiedName d)) = true :=
  List.any_eq_true.2 ⟨everything, h, hits_iff.2 hit_everything⟩

variable (hown : ∀ d ∈ types, g.Has d)
include hown

open Classical in
theorem chosen_eq : chosen g types filters = types.filter (Selected g filters) := by
  unfold chosen
  refine List.filter_congr fun d hd => ?_
  rw [Bool.eq_iff_iff, decide_eq_true_iff, selected_iff (hown d hd), Bool.and_eq_true,
    Bool.or_eq_true, List.contains_iff_mem]
  refine and_congr_right fun _ => ⟨fun h => ?_, .inr⟩
  exact h.elim any_hits_of_everything fun h => h

open Classical in
theorem select_eq {s : Session} (hs : s.Calls g types) :
    ((select g types filters).run s).1 = types.filter (Selected g filters) := by
  rw [← chosen_eq hown]
  exact ((select_calls hown s).run hs).2

open Classical in
/-- The general loop, with names for every candidate, selects the same where everything is
    wanted. -/
theorem hitTypes_eq (h : everything ∈ filters) {s : Session} (hs : s.Calls g types) :
    ((hitTypes g (distinctFilters filters) (types.filter (isCandidate g))).run s).1
      = types.filter (Selected g filters) := by
  have hcandidates : ∀ d ∈ types.filter (isCandidate g), d ∈ types :=
    fun d hd => (List.mem_filter.1 hd).1
  rw [((hitTypes_calls hown hcandidates s).run hs).2, List.filter_filter]
  refine List.filter_congr fun d hd => ?_
  rw [Bool.eq_iff_iff, decide_eq_true_iff, selected_iff (hown d hd), Bool.and_eq_true,
    any_hits_of_everything h, any_hits_of_everything (mem_distinctFilters.2 h)]
  exact and_comm

open Classical in
/-- Selecting is filtering, on every session whose names are right.  The short cut agrees with the
    general loop, the order and the repetitions of filters do not matter, more filters select no
    less, and a type inside what a compiler made is no candidate, however deep inside. -/
theorem select_exact {s : Session} (hs : s.Calls g types) :
    ((select g types filters).run s).1 = types.filter (Selected g filters) ∧
    (everything ∈ filters →
      ((hitTypes g (distinctFilters filters) (types.filter (isCandidate g))).run s).1
        = ((select g types filters).run s).1) ∧
    (∀ filters' s', s'.Calls g types → (∀ f, f ∈ filters' ↔ f ∈ filters) →
      ((select g types filters').run s').1 = ((select g types filters).run s).1) ∧
    (∀ filters' s', s'.Calls g types → filters ⊆ filters' →
      ((select g types filters).run s).1.Sublist ((select g types filters').run s').1) ∧
    ∀ d e, g.Has d → g.Has e → g.Arrives (·.declaring) d.identity e.identity →
      e.isCompilerGenerated = true → isCandidate g d = false := by
  refine ⟨select_eq hown hs, fun h => ?_, fun filters' s' hs' h => ?_, fun filters' s' hs' h => ?_,
    fun d e hd he harrives hmade => ?_⟩
  · rw [hitTypes_eq hown h hs, select_eq hown hs]
  · rw [select_eq hown hs, select_eq hown hs']
    refine List.filter_congr fun d _ => ?_
    have hsame : Selected g filters' d ↔ Selected g filters d :=
      ⟨.mono fun f => (h f).1, .mono fun f => (h f).2⟩
    rw [decide_eq_decide]
    exact hsame
  · rw [select_eq hown hs, select_eq hown hs']
    refine List.monotone_filter_right types fun d hd => ?_
    rw [decide_eq_true_iff] at hd ⊢
    exact hd.mono h
  · refine Bool.eq_false_iff.2 fun hcandidate => ?_
    have hwritten := ((isCandidate_iff hd).1 hcandidate).written e he harrives
    rw [hmade] at hwritten
    cases hwritten

omit hown

/-- A class, a type inside what a compiler made inside it, and a class beside it. -/
def shedTypes : List Descriptor :=
  [{ identity := "N.Shed", name := "Shed", space := some "N" },
   { identity := "N.Shed+<>c", name := "<>c", space := some "N", declaring := some "N.Shed",
     isCompilerGenerated := true },
   { identity := "N.Shed+<>c+Hook", name := "Hook", space := some "N",
     declaring := some "N.Shed+<>c" },
   { identity := "N.Rake", name := "Rake", space := some "N" }]

open Classical in
theorem shedTypes_selected : (∀ d ∈ shedTypes, Graph.Has ⟨shedTypes⟩ d) ∧
    Session.start.Calls ⟨shedTypes⟩ shedTypes ∧
    ((select ⟨shedTypes⟩ shedTypes ["N.Rake", "N.Sh*", "N.Rake"]).run .start).1
      = shedTypes.filter (Selected ⟨shedTypes⟩ ["N.Rake", "N.Sh*", "N.Rake"]) ∧
    ((select ⟨shedTypes⟩ shedTypes ["N.Rake", "N.Sh*", "N.Rake"]).run .start).1.map (·.identity)
      = ["N.Shed", "N.Rake"] := by
  have hown : ∀ d ∈ shedTypes, Graph.Has ⟨shedTypes⟩ d := by
    unfold shedTypes
    simp only [List.forall_mem_cons]
    exact ⟨rfl, rfl, rfl, rfl, by simp⟩
  exact ⟨hown, .start, (select_exact hown .start).1, by decide +kernel⟩

end EmmyStubs.Selection
