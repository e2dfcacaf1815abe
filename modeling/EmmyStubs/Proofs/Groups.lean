import Mathlib.Data.List.Induction
import Mathlib.Data.List.Perm.Basic
import EmmyStubs.Proofs.Sharing
import EmmyStubs.Declaration.Group

/-! # Groups and their translations

    * **`Grouped`**: every type is in one group, that of its namespace; no group is empty, and
      no two groups have one namespace.
    * **`Translates`**: a result has a declaration or a note for each type of its group, in
      order, on whatever session the group was translated.
-/

namespace EmmyStubs

/-! ## §1. Grouping -/

/-- How groups come from the types that were put into them. -/
structure Grouped (groups : List Group) (ds : List Descriptor) : Prop where
  nonempty : ∀ grp ∈ groups, grp.types ≠ []
  space : ∀ grp ∈ groups, ∀ d ∈ grp.types, d.space? = grp.space
  distinct : (groups.map (·.space)).Nodup
  all : (groups.flatMap (·.types)).Perm ds

namespace Grouped

theorem nil : Grouped [] [] :=
  ⟨by simp, by simp, List.nodup_nil, .refl _⟩

/-- The namespaces after one more type. -/
theorem map_space_insert {space : Option String} {d : Descriptor} {groups : List Group} :
    (Group.insert space d groups).map (·.space)
      = if space ∈ groups.map (·.space) then groups.map (·.space)
        else groups.map (·.space) ++ [space] := by
  induction groups with
  | nil => simp [Group.insert]
  | cons grp rest ih =>
    unfold Group.insert
    by_cases heq : grp.space = space
    · simp [heq]
    · have hne : space ≠ grp.space := Ne.symm heq
      simp only [if_neg heq, List.map_cons, ih, List.mem_cons, hne, false_or]
      split <;> rfl

/-- The types after one more. -/
theorem flatMap_types_insert {space : Option String} {d : Descriptor} {groups : List Group} :
    ((Group.insert space d groups).flatMap (·.types)).Perm (d :: groups.flatMap (·.types)) := by
  induction groups with
  | nil => simp [Group.insert]
  | cons grp rest ih =>
    unfold Group.insert
    by_cases heq : grp.space = space
    · simp only [if_pos heq, List.flatMap_cons, List.append_assoc, List.singleton_append]
      exact List.perm_middle
    · simp only [if_neg heq, List.flatMap_cons]
      exact (ih.append_left grp.types).trans List.perm_middle

/-- A group after one more type is an old one, perhaps with that type, or it is new. -/
theorem mem_insert {space : Option String} {d : Descriptor} {groups : List Group} {grp : Group}
    (h : grp ∈ Group.insert space d groups) :
    grp ∈ groups ∨ grp.space = space ∧
      ∃ ds, grp.types = ds ++ [d] ∧ (ds = [] ∨ ⟨space, ds⟩ ∈ groups) := by
  induction groups with
  | nil =>
    rw [Group.insert, List.mem_singleton] at h
    exact .inr ⟨by rw [h], [], by rw [h]; rfl, .inl rfl⟩
  | cons first rest ih =>
    unfold Group.insert at h
    by_cases heq : first.space = space
    · rw [if_pos heq] at h
      rcases List.mem_cons.1 h with rfl | h
      · exact .inr ⟨rfl, first.types, rfl, .inr (by simp [← heq])⟩
      · exact .inl (List.mem_cons_of_mem _ h)
    · rw [if_neg heq] at h
      rcases List.mem_cons.1 h with rfl | h
      · exact .inl List.mem_cons_self
      · rcases ih h with h | ⟨hs, ds, htypes, hds⟩
        · exact .inl (List.mem_cons_of_mem _ h)
        · exact .inr ⟨hs, ds, htypes, hds.imp_right (List.mem_cons_of_mem _)⟩

/-- One more type. -/
theorem insert {groups : List Group} {ds : List Descriptor} (h : Grouped groups ds)
    (d : Descriptor) : Grouped (Group.insert d.space? d groups) (ds ++ [d]) where
  nonempty := by
    intro grp hgrp
    rcases mem_insert hgrp with hgrp | ⟨-, es, htypes, -⟩
    · exact h.nonempty grp hgrp
    · simp [htypes]
  space := by
    intro grp hgrp e he
    rcases mem_insert hgrp with hgrp | ⟨hs, es, htypes, hes⟩
    · exact h.space grp hgrp e he
    · rw [htypes, List.mem_append, List.mem_singleton] at he
      rcases he with he | rfl
      · rcases hes with rfl | hold
        · exact absurd he (by simp)
        · exact (h.space _ hold e he).trans hs.symm
      · exact hs.symm
  distinct := by
    -- A namespace is added only if no group has it.
    rw [map_space_insert]
    split
    · exact h.distinct
    · next hnew =>
      refine List.nodup_append.2 ⟨h.distinct, by simp, ?_⟩
      intro a ha b hb heq
      rw [List.mem_singleton] at hb
      exact hnew (hb ▸ heq ▸ ha)
  all := by
    refine flatMap_types_insert.trans ((h.all.cons d).trans ?_)
    exact (List.perm_append_singleton d ds).symm

end Grouped

/-- Grouping by namespaces. -/
theorem groupBySpace_grouped (ds : List Descriptor) : Grouped (groupBySpace ds) ds := by
  -- By induction on the types still to come, for any groups made so far.
  have hfold : ∀ (rest : List Descriptor) (groups : List Group) (ds : List Descriptor),
      Grouped groups ds →
      Grouped (rest.foldl (fun groups d => Group.insert d.space? d groups) groups)
      (ds ++ rest) := by
    intro rest
    induction rest with
    | nil => exact fun groups ds h => by simpa using h
    | cons d rest ih =>
      intro groups ds h
      have := ih _ _ (h.insert d)
      rwa [List.append_assoc] at this
  exact hfold ds [] [] .nil

/-- There is one group for each namespace, in the order in which they first occur. -/
theorem map_space_groupBySpace (ds : List Descriptor) :
    (groupBySpace ds).map (·.space) = (ds.map (·.space?)).eraseDups := by
  induction ds using List.reverseRecOn with
  | nil => rfl
  | append_singleton ds d ih =>
    have hlast : groupBySpace (ds ++ [d]) = Group.insert d.space? d (groupBySpace ds) :=
      List.foldl_concat ..
    have hmem : d.space? ∈ (ds.map (·.space?)).eraseDups ↔ d.space? ∈ ds.map (·.space?) :=
      List.mem_eraseDups
    rw [hlast, Grouped.map_space_insert, ih, List.map_append, List.eraseDups_append]
    by_cases h : d.space? ∈ ds.map (·.space?)
    · have hold : [d.space?].removeAll (ds.map (·.space?)) = [] := by
        simpa [List.removeAll] using h
      rw [if_pos (hmem.2 h), List.map_singleton, hold, List.eraseDups_nil, List.append_nil]
    · have hnew : [d.space?].removeAll (ds.map (·.space?)) = [d.space?] := by
        simpa [List.removeAll] using h
      rw [if_neg fun hm => h (hmem.1 hm), List.map_singleton, hnew, List.eraseDups_cons]
      rfl

/-! ## §2. Translations -/

/-- A result has one declaration or note for each type of a group. -/
structure Translates (grp : Group) (r : GroupResult) : Prop where
  space : r.space = grp.space
  identities : r.declarations.map (·.identity) = grp.types.map (·.identity)

variable {g : Graph} {o : Options} {assembly : Option String}

/-- A faulty enumeration is refused under its own identity. -/
theorem enumMembers_error {id : Identity} {cs : List Descriptor.Constant} {e : DeclarationError}
    (h : enumMembers id cs = .error e) : e.identity = id := by
  induction cs with
  | nil => cases h
  | cons c cs ih =>
    unfold enumMembers at h
    split at h
    · cases hrest : enumMembers id cs with
      | error e' =>
        rw [hrest] at h
        cases h
        exact ih hrest
      | ok ms =>
        rw [hrest] at h
        cases h
    · cases h
      rfl

theorem declaration_error {d : Descriptor} {s : Session} {e : DeclarationError}
    (h : ((declaration g o d).run s).1 = .error e) : e.identity = d.identity := by
  unfold declaration at h
  split at h
  · split at h
    · next e' he =>
      cases h
      exact enumMembers_error he
    · rw [Action.run_bind] at h
      cases h
  · rw [Action.run_bind] at h
    cases h

/-- What has a text is rendered under the identity of its type, and no other is. -/
theorem printed_ok {d : Descriptor} {c : Stub.Declaration} {r : Stub.Rendered}
    (h : printed d c = .ok r) :
    ∃ text, c.text? = some text ∧ r = ⟨d.identity, c.name, d.space, text, false⟩ := by
  unfold printed at h
  split at h
  · next text htext => exact ⟨text, htext, (Except.ok.inj h).symm⟩
  · cases h

theorem printed_error_iff {d : Descriptor} {c : Stub.Declaration} {e : DeclarationError} :
    printed d c = .error e ↔ c.text? = none ∧ e = ⟨d.identity, .excess⟩ := by
  unfold printed
  split
  · next htext => simp [htext]
  · next htext => simp [htext, eq_comm]

/-- A type is rendered, or refused, under its own identity. -/
theorem renderType_identity (d : Descriptor) (s : Session) :
    match ((renderType g o d).run s).1 with
    | .ok r => r.identity = d.identity
    | .error e => e.identity = d.identity := by
  unfold renderType
  rw [Action.run_bind]
  cases hc : ((declaration g o d).run s).1 with
  | ok c =>
    show match printed d c with
      | .ok r => r.identity = d.identity
      | .error e => e.identity = d.identity
    cases hprinted : printed d c with
    | ok r =>
      obtain ⟨text, -, rfl⟩ := printed_ok hprinted
      rfl
    | error e => rw [(printed_error_iff.1 hprinted).2]
  | error e => exact declaration_error hc

/-- What is rendered is no note. -/
theorem failed_of_renderType {d : Descriptor} {s : Session} {r : Stub.Rendered}
    (h : ((renderType g o d).run s).1 = .ok r) : r.failed = false := by
  unfold renderType at h
  rw [Action.run_bind] at h
  cases hc : ((declaration g o d).run s).1 with
  | ok c =>
    rw [hc] at h
    obtain ⟨text, -, rfl⟩ := printed_ok h
    rfl
  | error e =>
    rw [hc] at h
    cases h

theorem renderTypes_identities (ds : List Descriptor) (s : Session) :
    (((renderTypes g o assembly ds).run s).1.1).map (·.identity) = ds.map (·.identity) := by
  induction ds generalizing s with
  | nil => rfl
  | cons d ds ih =>
    have hd := renderType_identity (g := g) (o := o) d s
    unfold renderTypes
    rw [Action.run_bind]
    cases hr : ((renderType g o d).run s).1 with
    | ok r =>
      rw [hr] at hd
      simp only [Action.run_bind, Action.pure_eq_done, Action.run_done, List.map_cons]
      rw [ih, hd]
    | error e =>
      rw [hr] at hd
      simp only [Action.run_bind, Action.pure_eq_done, Action.run_done, List.map_cons]
      rw [ih]
      exact congrArg (· :: _) hd

theorem renderGroup_translates (grp : Group) (s : Session) :
    Translates grp ((renderGroup g o assembly grp).run s).1 := by
  unfold renderGroup
  rw [Action.run_bind]
  exact ⟨rfl, renderTypes_identities grp.types s⟩

/-- The results of groups that are translated in turn, on any session. -/
theorem renderAll_translates (groups : List Group) (s : Session) :
    List.Forall₂ Translates groups ((renderAll g o assembly groups).run s).1 := by
  induction groups generalizing s with
  | nil => exact .nil
  | cons grp rest ih =>
    unfold renderAll
    simp only [Action.run_bind, Action.pure_eq_done, Action.run_done]
    exact .cons (renderGroup_translates grp s) (ih _)

/-- The numbers of types and of their declarations agree. -/
theorem map_length_of_translates {groups : List Group} {rs : List GroupResult}
    (h : List.Forall₂ Translates groups rs) :
    rs.map (·.declarations.length) = groups.map (·.types.length) := by
  induction h with
  | nil => rfl
  | cons hr _ ih =>
    have hlength := congrArg List.length hr.identities
    rw [List.length_map, List.length_map] at hlength
    rw [List.map_cons, List.map_cons, ih, hlength]

/-- The results have the namespaces of their groups. -/
theorem map_space_of_translates {groups : List Group} {rs : List GroupResult}
    (h : List.Forall₂ Translates groups rs) : rs.map (·.space) = groups.map (·.space) := by
  induction h with
  | nil => rfl
  | cons hr _ ih => rw [List.map_cons, List.map_cons, ih, hr.space]

/-- What belongs to one element of a list, and to those behind it. -/
theorem exists_split {α β : Type} {R : α → β → Prop} {before after : List α} {a : α}
    {l : List β} (h : List.Forall₂ R (before ++ a :: after) l) :
    ∃ before' b after', l = before' ++ b :: after' ∧ R a b ∧ List.Forall₂ R after after' := by
  induction before generalizing l with
  | nil =>
    cases h with
    | cons hr hrest => exact ⟨[], _, _, rfl, hr, hrest⟩
  | cons c before ih =>
    cases h with
    | @cons _ c' _ _ hr hrest =>
      obtain ⟨before', b, after', rfl, hab, hafter⟩ := ih hrest
      exact ⟨c' :: before', b, after', rfl, hab, hafter⟩

theorem exists_of_mem_left {α β : Type} {R : α → β → Prop} {l : List α} {l' : List β}
    (h : List.Forall₂ R l l') {a : α} (ha : a ∈ l) : ∃ b ∈ l', R a b := by
  obtain ⟨before, after, rfl⟩ := List.append_of_mem ha
  obtain ⟨before', b, after', rfl, hab, -⟩ := exists_split h
  exact ⟨b, by simp, hab⟩

end EmmyStubs
