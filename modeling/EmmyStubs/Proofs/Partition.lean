import Mathlib.Data.List.Nodup
import EmmyStubs.Proofs.Buckets
import EmmyStubs.Proofs.Groups

/-! # Grouping as a stable partition

    * **`StablePartition`**: groups that take a list of types apart by namespace and leave all of it
      in order.
    * **`groupBySpace_eq_buckets`**: grouping puts the types of every namespace into one bucket.
    * **`buckets_flatten`**: buckets laid behind one another fall into the same buckets again.
    * **`groupBySpace_partitions`**: grouping is a stable partition, and grouping again what it
      gives changes nothing.
-/

namespace EmmyStubs

/-! ## §1. Buckets laid behind one another -/

section

variable {α κ : Type} [BEq κ] [LawfulBEq κ] {key : α → κ} {k : κ} {w l : List α}

/-- Items of one key in front of items of other keys are a bucket of their own. -/
theorem buckets_append (hne : w ≠ []) (hw : ∀ a ∈ w, key a = k) (hl : ∀ a ∈ l, key a ≠ k) :
    buckets key (w ++ l) = (k, w) :: buckets key l := by
  obtain ⟨a, w, rfl⟩ := List.exists_cons_of_ne_nil hne
  obtain ⟨rfl, hw⟩ := List.forall_mem_cons.1 hw
  have hin : (w ++ l).filter (key · == key a) = w := by
    rw [List.filter_append, List.filter_eq_self.2 (by simpa using hw),
      List.filter_eq_nil_iff.2 (by simpa using hl), List.append_nil]
  have hout : (w ++ l).filter (fun b => !key b == key a) = l := by
    rw [List.filter_append, List.filter_eq_nil_iff.2 (by simpa using hw),
      List.filter_eq_self.2 (by simpa using hl), List.nil_append]
  rw [List.cons_append, buckets_cons, hin, hout]

theorem buckets_flatten (key : α → κ) (l : List α) :
    buckets key ((buckets key l).flatMap (·.2)) = buckets key l := by
  induction l using key_induction key with
  | nil => rfl
  | cons a l ih =>
    rw [buckets_cons, List.flatMap_cons, buckets_append (k := key a) (List.cons_ne_nil _ _), ih]
    · intro b hb
      rcases List.mem_cons.1 hb with rfl | hb
      · rfl
      · exact eq_of_beq (List.mem_filter.1 hb).2
    · -- What is in the other buckets is an item of another key.
      intro b hb
      have hmem := (flatten_buckets_perm key _).mem_iff.1 hb
      simpa using (List.mem_filter.1 hmem).2

end

/-! ## §2. Groups -/

/-- The namespace by which a type is grouped: the empty one is none. -/
def spaceKey (space : Option String) : Option String :=
  if space = some "" then none else space

theorem space?_eq_spaceKey (d : Descriptor) : d.space? = spaceKey d.space := by
  unfold Descriptor.space? spaceKey
  cases d.space with
  | none => rfl
  | some s =>
    by_cases hs : s = ""
    · simp [hs]
    · simp [hs]

/-- Groups that take some types apart by namespace. -/
structure StablePartition (groups : List Group) (ds : List Descriptor) : Prop where
  /-- The namespaces differ, and come in the order in which they first occur. -/
  order : groups.map (·.space) = (ds.map fun d => spaceKey d.space).eraseDups
  distinct : (groups.map (·.space)).Nodup
  /-- A group has the types of its namespace, as they come in the list. -/
  types : ∀ grp ∈ groups, grp.types = ds.filter fun d => spaceKey d.space == grp.space
  nonempty : ∀ grp ∈ groups, grp.types ≠ []
  /-- No occurrence of a type is lost or in two groups. -/
  all : (groups.flatMap (·.types)).Perm ds
  once : ∀ d ∈ ds, ∃! grp, grp ∈ groups ∧ d ∈ grp.types

/-- A group leaves its types in their order. -/
theorem sublist_of_mem_groupBySpace {ds : List Descriptor} {grp : Group}
    (h : grp ∈ groupBySpace ds) : grp.types.Sublist ds := by
  induction ds using List.reverseRecOn generalizing grp with
  | nil => cases h
  | append_singleton ds d ih =>
    have hlast : groupBySpace (ds ++ [d]) = Group.insert d.space? d (groupBySpace ds) :=
      List.foldl_concat ..
    rw [hlast] at h
    rcases Grouped.mem_insert h with hold | ⟨-, front, htypes, hfront⟩
    · exact (ih hold).trans (List.sublist_append_left ds [d])
    · rw [htypes]
      rcases hfront with rfl | hold
      · exact List.sublist_append_right ds [d]
      · exact (ih hold).append_right [d]

/-- The types of a namespace are all in its group. -/
theorem filter_flatMap_types {groups : List Group} {ds : List Descriptor}
    (h : Grouped groups ds) {grp : Group} (hgrp : grp ∈ groups) :
    (groups.flatMap (·.types)).filter (·.space? == grp.space) = grp.types := by
  obtain ⟨before, after, rfl⟩ := List.append_of_mem hgrp
  have hothers : ∀ g ∈ before ++ after, g.types.filter (·.space? == grp.space) = [] := by
    intro g hg
    have hne : g.space ≠ grp.space := by
      have hdistinct := h.distinct
      rw [List.map_append, List.map_cons, List.nodup_middle, List.nodup_cons,
        ← List.map_append] at hdistinct
      exact fun heq => hdistinct.1 (heq ▸ List.mem_map_of_mem hg)
    refine List.filter_eq_nil_iff.2 fun d hd => ?_
    have hmem : g ∈ before ++ grp :: after := by
      rcases List.mem_append.1 hg with hg | hg <;> simp [hg]
    simpa [h.space g hmem d hd] using hne
  have hown : grp.types.filter (·.space? == grp.space) = grp.types :=
    List.filter_eq_self.2 fun d hd => by simpa using h.space grp hgrp d hd
  have hbefore : before.flatMap (fun g => g.types.filter (·.space? == grp.space)) = [] :=
    List.flatMap_eq_nil_iff.2 fun g hg => hothers g (List.mem_append_left _ hg)
  have hafter : after.flatMap (fun g => g.types.filter (·.space? == grp.space)) = [] :=
    List.flatMap_eq_nil_iff.2 fun g hg => hothers g (List.mem_append_right _ hg)
  rw [List.filter_flatMap, List.flatMap_append, List.flatMap_cons, hbefore, hafter, hown,
    List.nil_append, List.append_nil]

/-- A group has the types of its namespace as they come: they are in their order, and as many. -/
theorem types_of_mem_groupBySpace {ds : List Descriptor} {grp : Group}
    (h : grp ∈ groupBySpace ds) : grp.types = ds.filter (·.space? == grp.space) := by
  have hgrouped := groupBySpace_grouped ds
  have hall := filter_flatMap_types hgrouped h
  have hsub := (sublist_of_mem_groupBySpace h).filter (·.space? == grp.space)
  have hlength := (hgrouped.all.filter (·.space? == grp.space)).length_eq
  rw [hall] at hlength
  rw [List.filter_eq_self.2 fun d hd => by simpa using hgrouped.space grp h d hd] at hsub
  exact hsub.eq_of_length hlength

/-- Types are grouped into the buckets of their namespaces. -/
theorem groupBySpace_eq_buckets (ds : List Descriptor) :
    groupBySpace ds = (buckets (·.space?) ds).map fun b => ⟨b.1, b.2⟩ := by
  calc
    groupBySpace ds
      = (groupBySpace ds).map fun grp => ⟨grp.space, ds.filter (·.space? == grp.space)⟩ := by
        conv_lhs => rw [← List.map_id (groupBySpace ds)]
        exact List.map_congr_left fun grp hgrp => by rw [← types_of_mem_groupBySpace hgrp]; rfl
    _ = ((groupBySpace ds).map (·.space)).map fun k => ⟨k, ds.filter (·.space? == k)⟩ := by
        rw [List.map_map]
        rfl
    _ = (buckets (·.space?) ds).map fun b => ⟨b.1, b.2⟩ := by
        rw [map_space_groupBySpace, buckets, List.map_map]
        rfl

/-- Grouping again what grouping gives changes nothing. -/
theorem groupBySpace_flatMap (ds : List Descriptor) :
    groupBySpace ((groupBySpace ds).flatMap (·.types)) = groupBySpace ds := by
  have hflat : (groupBySpace ds).flatMap (·.types) = (buckets (·.space?) ds).flatMap (·.2) := by
    rw [groupBySpace_eq_buckets, List.flatMap_map]
  rw [groupBySpace_eq_buckets, hflat, buckets_flatten, ← groupBySpace_eq_buckets]

/-- Grouping is a stable partition, and grouping the types once more as the groups hold them gives
    the same groups. -/
theorem groupBySpace_partitions (ds : List Descriptor) :
    StablePartition (groupBySpace ds) ds ∧
      groupBySpace ((groupBySpace ds).flatMap (·.types)) = groupBySpace ds := by
  have hgrouped := groupBySpace_grouped ds
  refine ⟨⟨?_, hgrouped.distinct, ?_, hgrouped.nonempty, hgrouped.all, ?_⟩,
    groupBySpace_flatMap ds⟩
  · simp only [map_space_groupBySpace, space?_eq_spaceKey]
  · intro grp hgrp
    simp only [types_of_mem_groupBySpace hgrp, space?_eq_spaceKey]
  · intro d hd
    obtain ⟨grp, hgrp, hmem⟩ := List.mem_flatMap.1 (hgrouped.all.mem_iff.2 hd)
    refine ⟨grp, ⟨hgrp, hmem⟩, fun other ⟨hother, hmem'⟩ => ?_⟩
    have hspace := (hgrouped.space other hother d hmem').symm.trans (hgrouped.space grp hgrp d hmem)
    exact List.inj_on_of_nodup_map hgrouped.distinct hother hgrp hspace

end EmmyStubs
