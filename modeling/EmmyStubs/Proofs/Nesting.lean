import Mathlib.Data.List.Sort
import Mathlib.Data.Set.Basic
import Mathlib.Data.String.Basic
import EmmyStubs.Index

/-! # Indexes as sets of paths

    An index is put together by adding one path after the other.  What it is in the end is told
    by the paths alone:

    * **`Index.Has`**: a path leads from the root of an index to a node.
    * **`Index.Ascending`**: siblings ascend strictly, everywhere.
    * **`has_insert`, `Ascending.insert`**: adding a path adds its beginnings, and keeps the order.
    * **`eq_of_has_iff`**: ascending indexes with the same paths are the same.
-/

namespace EmmyStubs.Index

/-! ## §1. Paths -/

/-- What holds of a node once it holds of its children holds of every index. -/
@[elab_as_elim]
theorem ind {motive : Index → Prop}
    (node : ∀ children : List (String × Index), (∀ c ∈ children, motive c.2) →
      motive (.node children)) (t : Index) : motive t := by
  refine Index.rec (motive_1 := motive) (motive_2 := fun cs => ∀ c ∈ cs, motive c.2)
    (motive_3 := fun c => motive c.2) node ?_ ?_ (fun _ _ h => h) t
  · exact fun c hc => absurd hc (by simp)
  · exact fun c cs hc hcs => List.forall_mem_cons.2 ⟨hc, hcs⟩

/-- The segments lead from the root of the index to a node. -/
def Has : Index → List String → Prop
  | _, [] => True
  | .node children, s :: p => ∃ t, (s, t) ∈ children ∧ t.Has p

@[simp] theorem has_nil (t : Index) : t.Has [] := by
  unfold Has
  trivial

theorem has_cons {children : List (String × Index)} {s : String} {p : List String} :
    (node children).Has (s :: p) ↔ ∃ t, (s, t) ∈ children ∧ t.Has p := by
  rw [Has]

/-- Nothing but the root is in the empty index. -/
theorem has_empty {p : List String} : empty.Has p ↔ p = [] := by
  cases p with
  | nil => simp
  | cons s p => simp [empty, has_cons]

/-- Changing what is nested in a segment, where the change adds one thing to be had. -/
theorem has_update {segment r : String} {p : List String} {f : Index → Index} {added : Prop}
    (hf : ∀ t, (f t).Has p ↔ t.Has p ∨ added) (hempty : p = [] → added)
    (children : List (String × Index)) :
    (∃ t, (r, t) ∈ update segment f children ∧ t.Has p) ↔
      (∃ t, (r, t) ∈ children ∧ t.Has p) ∨ r = segment ∧ added := by
  have hnew : (f empty).Has p ↔ added := by
    rw [hf, has_empty]
    exact or_iff_right_of_imp hempty
  fun_induction update segment f children with
  | case1 => simp [hnew]
  | case2 t rest =>
    simp only [List.mem_cons, Prod.mk.injEq, or_and_right, exists_or, and_assoc,
      exists_and_left, exists_eq_left, hf]
    rw [and_or_left, or_right_comm]
  | case3 s t rest _ _ =>
    simp only [List.mem_cons, Prod.mk.injEq, or_and_right, exists_or, and_assoc,
      exists_and_left, exists_eq_left, hnew]
    exact or_comm
  | case4 s t rest _ _ ih =>
    simp only [List.mem_cons, or_and_right, exists_or]
    exact (or_congr_right ih).trans or_assoc.symm

/-- Adding a path adds its beginnings. -/
theorem has_insert (ss p : List String) (t : Index) :
    (t.insert ss).Has p ↔ t.Has p ∨ p <+: ss := by
  induction ss generalizing p t with
  | nil =>
    rw [insert, List.prefix_nil]
    exact (or_iff_left_of_imp fun h => h ▸ t.has_nil).symm
  | cons s ss ih =>
    obtain ⟨children⟩ := t
    cases p with
    | nil => simp
    | cons r p =>
      rw [insert, has_cons, has_cons, List.cons_prefix_cons]
      exact has_update (ih p) (fun h => h ▸ List.nil_prefix) children

/-! ## §2. Order -/

/-- Siblings ascend strictly, everywhere. -/
inductive Ascending : Index → Prop
  | node {children : List (String × Index)} (siblings : children.Pairwise (·.1 < ·.1))
      (below : ∀ c ∈ children, Ascending c.2) : Ascending (.node children)

/-- What is below the root after a change. -/
theorem mem_update {segment : String} {f : Index → Index} {children : List (String × Index)}
    {c : String × Index} (h : c ∈ update segment f children) :
    c ∈ children ∨ c.1 = segment ∧ (c.2 = f empty ∨ ∃ t, (segment, t) ∈ children ∧ c.2 = f t) := by
  fun_induction update segment f children with
  | case1 => simp_all
  | case2 t rest =>
    rcases List.mem_cons.1 h with rfl | h
    · exact .inr ⟨rfl, .inr ⟨t, List.mem_cons_self, rfl⟩⟩
    · exact .inl (List.mem_cons_of_mem _ h)
  | case3 s t rest _ _ =>
    rcases List.mem_cons.1 h with rfl | h
    · exact .inr ⟨rfl, .inl rfl⟩
    · exact .inl h
  | case4 s t rest _ _ ih =>
    rcases List.mem_cons.1 h with rfl | h
    · exact .inl List.mem_cons_self
    · rcases ih h with h | ⟨hs, h | ⟨t', ht', h⟩⟩
      · exact .inl (List.mem_cons_of_mem _ h)
      · exact .inr ⟨hs, .inl h⟩
      · exact .inr ⟨hs, .inr ⟨t', List.mem_cons_of_mem _ ht', h⟩⟩

theorem pairwise_update {segment : String} {f : Index → Index} {children : List (String × Index)}
    (h : children.Pairwise (·.1 < ·.1)) : (update segment f children).Pairwise (·.1 < ·.1) := by
  fun_induction update segment f children with
  | case1 => exact List.pairwise_singleton _ _
  | case2 t rest =>
    obtain ⟨hfirst, hrest⟩ := List.pairwise_cons.1 h
    exact List.pairwise_cons.2 ⟨hfirst, hrest⟩
  | case3 s t rest _ hlt =>
    -- The new segment is below the first one, and so below all.
    refine List.pairwise_cons.2 ⟨fun c hc => ?_, h⟩
    rcases List.mem_cons.1 hc with rfl | hc
    · exact hlt
    · exact lt_trans hlt ((List.pairwise_cons.1 h).1 c hc)
  | case4 s t rest hne hlt ih =>
    obtain ⟨hfirst, hrest⟩ := List.pairwise_cons.1 h
    refine List.pairwise_cons.2 ⟨fun c hc => ?_, ih hrest⟩
    rcases mem_update hc with hc | ⟨hc, -⟩
    · exact hfirst c hc
    · exact hc ▸ lt_of_le_of_ne (not_lt.1 hlt) hne

theorem ascending_empty : Ascending empty :=
  .node .nil (by simp)

/-- Adding a path keeps the order. -/
theorem Ascending.insert {t : Index} (h : t.Ascending) (ss : List String) :
    (t.insert ss).Ascending := by
  induction ss generalizing t with
  | nil => exact h
  | cons s ss ih =>
    obtain ⟨hsiblings, hbelow⟩ := h
    refine .node (pairwise_update hsiblings) fun c hc => ?_
    rcases mem_update hc with hc | ⟨-, hc | ⟨t, ht, hc⟩⟩
    · exact hbelow c hc
    · exact hc ▸ ih ascending_empty
    · exact hc ▸ ih (hbelow _ ht)

/-- Of siblings that ascend, each segment has one. -/
theorem eq_of_mem_siblings {children : List (String × Index)}
    (h : children.Pairwise (·.1 < ·.1)) {s : String} {t t' : Index} (ht : (s, t) ∈ children)
    (ht' : (s, t') ∈ children) : t = t' := by
  have hnodup : (children.map (·.1)).Nodup :=
    List.pairwise_map.2 (h.imp fun hlt => ne_of_lt hlt)
  exact congrArg Prod.snd (List.inj_on_of_nodup_map hnodup ht ht' rfl)

theorem has_cons_iff_of_mem {children : List (String × Index)}
    (h : children.Pairwise (·.1 < ·.1)) {s : String} {t : Index} (ht : (s, t) ∈ children)
    {p : List String} : (node children).Has (s :: p) ↔ t.Has p := by
  rw [has_cons]
  constructor
  · rintro ⟨t', ht', hp⟩
    exact eq_of_mem_siblings h ht ht' ▸ hp
  · exact fun hp => ⟨t, ht, hp⟩

/-- Ascending indexes with the same paths are the same. -/
theorem eq_of_has_iff {t t' : Index} (h : t.Ascending) (h' : t'.Ascending)
    (hiff : ∀ p, t.Has p ↔ t'.Has p) : t = t' := by
  induction t using ind generalizing t' with
  | node children ih =>
    obtain ⟨children'⟩ := t'
    obtain ⟨hsiblings, hbelow⟩ := h
    obtain ⟨hsiblings', hbelow'⟩ := h'
    -- What is below a segment in the one index is the same as in the other one.
    have hsame : ∀ {s t t'}, (s, t) ∈ children → (s, t') ∈ children' → t = t' := by
      intro s t t' ht ht'
      refine ih (s, t) ht (hbelow _ ht) (hbelow' _ ht') fun p => ?_
      rw [← has_cons_iff_of_mem hsiblings ht, hiff, has_cons_iff_of_mem hsiblings' ht']
    have hmem : ∀ c, c ∈ children ↔ c ∈ children' := by
      rintro ⟨s, t⟩
      have hone : (∃ t, (s, t) ∈ children) ↔ ∃ t, (s, t) ∈ children' := by
        simpa [has_cons] using hiff [s]
      constructor
      · intro ht
        obtain ⟨t', ht'⟩ := hone.1 ⟨t, ht⟩
        exact hsame ht ht' ▸ ht'
      · intro ht'
        obtain ⟨t, ht⟩ := hone.2 ⟨t, ht'⟩
        exact hsame ht ht' ▸ ht
    have : Std.Irrefl fun c c' : String × Index => c.1 < c'.1 := ⟨fun c => lt_irrefl c.1⟩
    have : Std.Antisymm fun c c' : String × Index => c.1 < c'.1 :=
      ⟨fun c c' hlt hlt' => absurd hlt (lt_asymm hlt')⟩
    rw [hsiblings.eq_of_mem_iff hsiblings' hmem]

/-! ## §3. Namespaces -/

/-- The paths of some namespaces: the beginnings of their segments, without the empty one. -/
def paths (spaces : List (Option String)) : Set (List String) :=
  {p | p ≠ [] ∧ ∃ space ∈ spaces, p <+: segmentsOf space}

theorem has_ofSpaces_and_ascending (spaces : List (Option String)) :
    (∀ p, (ofSpaces spaces).Has p ↔ p = [] ∨ p ∈ paths spaces) ∧ (ofSpaces spaces).Ascending := by
  -- By induction on the namespaces still to come, for any index made so far.
  have hfold : ∀ (spaces : List (Option String)) (t : Index), t.Ascending →
      (∀ p, (spaces.foldl (fun t space => t.insert (segmentsOf space)) t).Has p ↔
        t.Has p ∨ ∃ space ∈ spaces, p <+: segmentsOf space) ∧
      (spaces.foldl (fun t space => t.insert (segmentsOf space)) t).Ascending := by
    intro spaces
    induction spaces with
    | nil => exact fun t ht => ⟨by simp, ht⟩
    | cons space spaces ih =>
      intro t ht
      obtain ⟨hhas, hascending⟩ := ih _ (ht.insert (segmentsOf space))
      refine ⟨fun p => ?_, hascending⟩
      rw [List.foldl_cons, hhas, has_insert, or_assoc, List.exists_mem_cons_iff]
  obtain ⟨hhas, hascending⟩ := hfold spaces empty ascending_empty
  refine ⟨fun p => ?_, hascending⟩
  rw [ofSpaces, hhas, has_empty, paths, Set.mem_ofPred_eq]
  tauto

end EmmyStubs.Index
