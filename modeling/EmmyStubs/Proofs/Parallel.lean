import EmmyStubs.Proofs.Translations
import EmmyStubs.Proofs.Workers

/-! # Translating groups in parallel

    The groups of a dump are dealt to the queues of some workers.  What is left of a group that a
    worker is at carries the types being mapped around the current one, so every worker has a
    stack of its own; the caches are all that the workers share.

    Every group has one result in every valid session, and valid the session stays whatever the
    others do.  So the order in which the workers come to their steps shows neither in the
    results nor, in the end, in the cache of mappings.
-/

namespace EmmyStubs

variable {g : Graph} {o : Options} {assembly : Option String}

/-- The result of a group that is translated alone. -/
def aloneResult (g : Graph) (o : Options) (assembly : Option String) (grp : Group) : GroupResult :=
  ((renderGroup g o assembly grp).run Session.start).1

/-- Groups that are translated in turn get the results that they have alone. -/
theorem Gives.renderAll {counted : Prop} {mapped : Group → List Identity} {groups : List Group}
    (h : ∀ grp ∈ groups, Gives g o counted (renderGroup g o assembly grp)
      (aloneResult g o assembly grp) (mapped grp)) :
    Gives g o counted (renderAll g o assembly groups) (groups.map (aloneResult g o assembly))
      (groups.flatMap mapped) := by
  induction groups with
  | nil => exact .pure
  | cons grp rest ih =>
    have hgrp := h grp List.mem_cons_self
    have hrest := ih fun grp' hg => h grp' (List.mem_cons_of_mem grp hg)
    have hlast := hrest.bind (f := fun rs => Pure.pure (aloneResult g o assembly grp :: rs)) .pure
    rw [List.append_nil] at hlast
    exact hgrp.bind hlast

/-- The workers at the start, with the groups in their queues and the place of each group. -/
def groupPool (g : Graph) (o : Options) (assembly : Option String)
    (queues : List (List (Group × Nat))) : Pool GroupResult :=
  .start (queues.map fun queue => queue.map fun e => ⟨e.2, renderGroup g o assembly e.1⟩)

/-- At every moment the places are those of the groups. -/
theorem mem_indices_groupPool {groups : List Group} {queues : List (List (Group × Nat))}
    (hqueues : queues.flatten.Perm groups.zipIdx) {p : Pool GroupResult}
    (hp : (groupPool g o assembly queues).Steps p) (i : Nat) :
    i ∈ p.indices ↔ i < groups.length := by
  have hstart : (groupPool g o assembly queues).indices = queues.flatten.map (·.2) := by
    simp [groupPool, Pool.start, Pool.indices, List.map_flatten, List.map_map, Function.comp_def]
  -- No step changes the places, and at the start they are the numbers dealt out.
  rw [hp.indices_perm.mem_iff, hstart, (hqueues.map _).mem_iff, List.zipIdx_map_snd]
  simp

/-! ### One invariant for all workers

    `mapped` has the types that each group maps.  The roots are those of all groups. -/

section

variable {groups : List Group} {mapped : Group → List Identity}

/-- What is promised for the result at a place: it is that of the group there on its own, and the
    cache holds all that the types of this group lead to. -/
def Promised (g : Graph) (o : Options) (assembly : Option String) (groups : List Group)
    (mapped : Group → List Identity) (i : Nat) (r : GroupResult) (s : Session) : Prop :=
  ∃ grp, groups[i]? = some grp ∧ r = aloneResult g o assembly grp ∧
    s.Complete g o (· ∈ mapped grp)

/-- Every step of every worker keeps the session valid and the promises. -/
theorem groupPool_sound
    (hmapped : ∀ grp ∈ groups, Gives g o True (renderGroup g o assembly grp)
      (aloneResult g o assembly grp) (mapped grp))
    {queues : List (List (Group × Nat))} (hqueues : queues.flatten.Perm groups.zipIdx)
    {p : Pool GroupResult} (hp : (groupPool g o assembly queues).Steps p) :
    p.Sound (Session.Valid g o .start True (· ∈ groups.flatMap mapped))
      (Promised g o assembly groups mapped) := by
  refine hp.sound (Pool.sound_start Session.valid_start fun queue hqueue t ht => ?_)
  obtain ⟨entries, hentries, rfl⟩ := List.mem_map.1 hqueue
  obtain ⟨⟨grp, i⟩, hentry, rfl⟩ := List.mem_map.1 ht
  have hmem := hqueues.mem_iff.1 (List.mem_flatten.2 ⟨entries, hentries, hentry⟩)
  have hi : groups[i]? = some grp := List.mem_zipIdx_iff_getElem?.1 hmem
  have hgrp := List.mem_of_getElem? hi
  have hroots : ∀ t ∈ mapped grp, t ∈ groups.flatMap mapped := fun t ht =>
    List.mem_flatMap.2 ⟨grp, hgrp, ht⟩
  refine (hmapped grp hgrp _ _ hroots Session.start).imp ?_
  rintro _ s - - ⟨rfl, hs⟩
  exact ⟨grp, hi, rfl, hs trivial⟩

/-- In the end the cache holds all that the types of all groups lead to. -/
theorem groupPool_complete {queues : List (List (Group × Nat))}
    (hqueues : queues.flatten.Perm groups.zipIdx) {p : Pool GroupResult}
    (hp : (groupPool g o assembly queues).Steps p)
    (hsound : p.Sound (Session.Valid g o .start True (· ∈ groups.flatMap mapped))
      (Promised g o assembly groups mapped)) (hdone : p.Done) :
    p.session.Complete g o (· ∈ groups.flatMap mapped) := by
  intro r hr
  obtain ⟨grp, hgrp, hr⟩ := List.mem_flatMap.1 hr
  obtain ⟨i, hi⟩ := List.mem_iff_getElem?.1 hgrp
  have hplace := hsound.result? hdone i
  cases hres : p.result? i with
  | some a =>
    rw [hres] at hplace
    obtain ⟨-, grp', hgrp', -, hcomp⟩ := hplace
    rw [hi, Option.some.injEq] at hgrp'
    exact hcomp r (hgrp' ▸ hr)
  | none =>
    -- The place of a group is one of the places, so it has its result.
    rw [hres, mem_indices_groupPool hqueues hp] at hplace
    exact absurd (List.getElem?_eq_some_iff.1 hi).1 hplace

end

/-- However the groups are dealt to workers and however the steps of these mix: a result put
    down is that of its group alone on a new session; in the end the results in order are those
    of the groups one after the other, and the cache of mappings holds the same then; and each
    order of steps comes to that end. -/
theorem parallel_eq_serial (g : Graph) (o : Options) (assembly : Option String)
    (groups : List Group) (hgroups : ∀ grp ∈ groups, ∀ d ∈ grp.types, g.Has d)
    (queues : List (List (Group × Nat))) (hqueues : queues.flatten.Perm groups.zipIdx)
    (p : Pool GroupResult) (hp : (groupPool g o assembly queues).Steps p) :
    let serial := (renderAll g o assembly groups).run Session.start
    (∀ i r, (i, r) ∈ p.results → ∃ grp, groups[i]? = some grp ∧
      r = ((renderGroup g o assembly grp).run Session.start).1) ∧
    (p.Done → (∀ i, p.result? i = serial.1[i]?) ∧
      ∀ t, p.session.mappings.held? t = serial.2.mappings.held? t) ∧
    (¬p.Done → ∃ p', p.Step p') ∧ Acc (fun q' q : Pool GroupResult => q.Step q') p := by
  intro serial
  have hmapped : ∀ grp, ∃ l, grp ∈ groups → Gives g o True (renderGroup g o assembly grp)
      (aloneResult g o assembly grp) l := by
    intro grp
    by_cases hgrp : grp ∈ groups
    · have hdetermined : Determined g o (renderGroup g o assembly grp) :=
        renderGroup_determined (hgroups grp hgrp)
      obtain ⟨l, hl⟩ := hdetermined.gives
      exact ⟨l, fun _ => hl True fun hc => absurd trivial hc⟩
    · exact ⟨[], fun hg => absurd hg hgrp⟩
  choose mapped hmapped using hmapped
  have hsound := groupPool_sound hmapped hqueues hp
  have hserial := (Gives.renderAll hmapped).run (fun _ ht => ht) Session.valid_start
  obtain ⟨hresults, hvalid, hcomplete⟩ := hserial
  refine ⟨fun i r hr => ?_, fun hdone => ⟨fun i => ?_, fun t => ?_⟩, Pool.exists_step,
    Pool.wellFounded_step.apply p⟩
  · obtain ⟨grp, hi, hr, -⟩ := hsound.results (i, r) hr p.session le_rfl hsound.session
    exact ⟨grp, hi, hr⟩
  · -- In the end there is a result at each place, and it is promised for the group of that place.
    have hplace := hsound.result? hdone i
    rw [hresults, List.getElem?_map]
    cases hi : p.result? i with
    | some r =>
      rw [hi] at hplace
      obtain ⟨-, grp, hgrp, rfl, -⟩ := hplace
      rw [hgrp]
      rfl
    | none =>
      rw [hi, mem_indices_groupPool hqueues hp, Nat.not_lt] at hplace
      rw [List.getElem?_eq_none hplace]
      rfl
  · -- Both sessions are valid and complete for the same roots, so they hold the same.
    have hall := groupPool_complete hqueues hp hsound hdone
    refine Option.ext fun e => ?_
    exact (hsound.session.held?_iff hall t e).trans (hvalid.held?_iff (hcomplete trivial) t e).symm

/-! ### A pool of two workers -/

/-- A class whose field has a delegate that is handed on to itself. -/
def callbackGraph : Graph :=
  ⟨[{ identity := "X.Source", name := "Source", space := some "X",
      fields := [{ name := "changed", type := "Y.Handler" }] },
    { identity := "Y.Handler", name := "Handler", space := some "Y", kind := .delegate,
      invoke := some
        { name := "Invoke", parameters := [{ name := some "next", type := "Y.Handler" }],
          returnType := some "X.Source" } }]⟩

/-- The two types in groups of their own, the second one dealt to the first worker. -/
def callbackQueues : List (List (Group × Nat)) :=
  [[(⟨some "Y", callbackGraph.findAll ["Y.Handler"]⟩, 1)],
   [(⟨some "X", callbackGraph.findAll ["X.Source"]⟩, 0)]]

theorem callbackQueues_parallel :
    let groups : List Group := [⟨some "X", callbackGraph.findAll ["X.Source"]⟩,
      ⟨some "Y", callbackGraph.findAll ["Y.Handler"]⟩]
    let serial := (renderAll callbackGraph {} none groups).run Session.start
    callbackQueues.flatten.Perm groups.zipIdx ∧
    ∃ p, (groupPool callbackGraph {} none callbackQueues).Steps p ∧ p.Done ∧
      (∀ i, p.result? i = serial.1[i]?) ∧
      ∀ t, p.session.mappings.held? t = serial.2.mappings.held? t := by
  intro groups serial
  have hgroups : ∀ grp ∈ groups, ∀ d ∈ grp.types, callbackGraph.Has d := by
    intro grp hgrp d hd
    simp only [groups, List.mem_cons, List.not_mem_nil, or_false] at hgrp
    rcases hgrp with rfl | rfl <;> exact Graph.has_of_mem_findAll hd
  have hqueues : callbackQueues.flatten.Perm groups.zipIdx := List.Perm.swap _ _ _
  obtain ⟨p, hp, hdone⟩ := Pool.exists_done (groupPool callbackGraph {} none callbackQueues)
  have h := parallel_eq_serial callbackGraph {} none groups hgroups callbackQueues hqueues p hp
  exact ⟨hqueues, p, hp, hdone, h.2.1 hdone⟩

end EmmyStubs
