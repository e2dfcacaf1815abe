import EmmyStubs.Proofs.Links

/-! # Walks along one link

    A walk follows one link from type to type: from a nested type to the type around it, from a
    type to its base.  Nothing keeps the links of a graph from forming cycles.

    * **`Graph.Arrives`**: a walk comes past a type.  `mem_chain_iff`: `Graph.chain` lists the
      types that the walk comes past, up to where it starts over.
    * **`Graph.Circles`**: a walk comes past a type that it comes past again, be it far from
      where it started.  `revisits_iff`: `Graph.revisits` tells just that.
    * **`Graph.RunsOut`**: a walk comes to a type whose link leads nowhere.  Among types that
      refer to known types only, a walk that does not circle does (`runsOut_of_acc`).
-/

namespace EmmyStubs.Graph

variable {g : Graph} {next : Descriptor → Option Identity}

/-- The link of `t` leads to `u`. -/
def Follows (g : Graph) (next : Descriptor → Option Identity) (t u : Identity) : Prop :=
  ∃ d, g.find? t = some d ∧ next d = some u

/-- The walk from `t` comes past `u`. -/
abbrev Arrives (g : Graph) (next : Descriptor → Option Identity) : Identity → Identity → Prop :=
  Relation.ReflTransGen (g.Follows next)

/-- The walk from `t` comes past a type again. -/
def Circles (g : Graph) (next : Descriptor → Option Identity) (t : Identity) : Prop :=
  ∃ u, g.Arrives next t u ∧ Relation.TransGen (g.Follows next) u u

/-- The walk from `t` comes to a type whose link leads nowhere. -/
def RunsOut (g : Graph) (next : Descriptor → Option Identity) (t : Identity) : Prop :=
  ∃ e, g.Has e ∧ g.Arrives next t e.identity ∧ next e = none

theorem follows_iff {t u : Identity} {d : Descriptor} (hd : g.find? t = some d) :
    g.Follows next t u ↔ next d = some u := by
  constructor
  · rintro ⟨d', hd', hu⟩
    rw [hd, Option.some.injEq] at hd'
    rwa [hd']
  · exact fun hu => ⟨d, hd, hu⟩

/-! ## §1. Types on a walk -/

theorem arrives_of_mem_chain {seen : List Identity} {start : Option Identity} {e : Descriptor}
    (h : e ∈ g.chain next seen start) : ∃ t, start = some t ∧ g.Arrives next t e.identity := by
  fun_induction chain g next seen start with
  | case1 => simp at h
  | case2 => simp at h
  | case3 => simp at h
  | case4 seen id hn d hd ih =>
    refine ⟨id, rfl, ?_⟩
    rcases List.mem_cons.1 h with rfl | h
    · rw [identity_of_find? hd]
    · obtain ⟨u, hu, harrives⟩ := ih h
      exact .head ⟨d, hd, hu⟩ harrives

/-- A type that was not seen is on the walk that starts at it. -/
theorem mem_chain_self {seen : List Identity} {id : Identity} {d : Descriptor} (hn : id ∉ seen)
    (hd : g.find? id = some d) : d ∈ g.chain next seen (some id) := by
  rw [chain_of_find? hn hd]
  exact List.mem_cons_self

/-- A walk leaves its types for types that were seen before or are on it too. -/
theorem chain_closed {seen : List Identity} {start : Option Identity} {d e : Descriptor}
    {u : Identity} (h : d ∈ g.chain next seen start) (hu : next d = some u)
    (he : g.find? u = some e) : u ∈ seen ∨ e ∈ g.chain next seen start := by
  fun_induction chain g next seen start with
  | case1 => simp at h
  | case2 => simp at h
  | case3 => simp at h
  | case4 seen id hn first hfirst ih =>
    -- What is seen behind the first type was seen before, or is the first type itself.
    have hrest : u ∈ id :: seen ∨ e ∈ g.chain next (id :: seen) (next first) := by
      rcases List.mem_cons.1 h with rfl | h
      · by_cases hseen : u ∈ id :: seen
        · exact .inl hseen
        · exact .inr (hu ▸ mem_chain_self hseen he)
      · exact ih h
    rcases hrest with hseen | hmem
    · rcases List.mem_cons.1 hseen with rfl | hseen
      · rw [hfirst, Option.some.injEq] at he
        exact .inr (he ▸ List.mem_cons_self)
      · exact .inl hseen
    · exact .inr (List.mem_cons_of_mem _ hmem)

/-- The walk from a type lists what it comes past. -/
theorem mem_chain_iff {t : Identity} {e : Descriptor} :
    e ∈ g.chain next [] (some t) ↔ g.Has e ∧ g.Arrives next t e.identity := by
  constructor
  · intro h
    obtain ⟨t', ht, harrives⟩ := arrives_of_mem_chain h
    cases ht
    exact ⟨has_of_mem_chain h, harrives⟩
  · rintro ⟨he, harrives⟩
    have hall : ∀ {u}, g.Arrives next t u → ∀ d, g.find? u = some d →
        d ∈ g.chain next [] (some t) := by
      intro u hu
      induction hu with
      | refl => exact fun d hd => mem_chain_self List.not_mem_nil hd
      | tail _ hstep ih =>
        obtain ⟨d, hd, hu⟩ := hstep
        intro e he
        exact (chain_closed (ih d hd) hu he).resolve_left List.not_mem_nil
    exact hall harrives e he

/-- The same for a walk that starts behind a type. -/
theorem mem_cons_chain_iff {d e : Descriptor} (hd : g.Has d) :
    e ∈ d :: g.chain next [d.identity] (next d) ↔
      g.Has e ∧ g.Arrives next d.identity e.identity := by
  rw [← chain_of_find? List.not_mem_nil hd, mem_chain_iff]

/-! ## §2. Walks that come past a type again -/

/-- Coming back to a type seen before closes a cycle, as its walk came past all that was seen
    later. -/
theorem circles_of_revisits {seen : List Identity} {start : Option Identity} {t : Identity}
    (h : g.revisits next seen start = true) (ht : start = some t)
    (hseen : ∀ w ∈ seen, Relation.TransGen (g.Follows next) w t) : g.Circles next t := by
  fun_induction revisits g next seen start generalizing t with
  | case1 => cases ht
  | case2 seen id hn =>
    cases ht
    exact ⟨id, .refl, hseen id hn⟩
  | case3 => cases h
  | case4 seen id hn d hd ih =>
    cases ht
    cases hu : next d with
    | none => rw [hu, revisits] at h; cases h
    | some u =>
      have hstep : g.Follows next id u := ⟨d, hd, hu⟩
      obtain ⟨v, harrives, hcycle⟩ := ih h hu fun w hw => by
        rcases List.mem_cons.1 hw with rfl | hw
        · exact .single hstep
        · exact (hseen w hw).tail hstep
      exact ⟨v, .head hstep harrives, hcycle⟩

/-- A walk that comes past nothing twice comes to an end. -/
theorem acc_of_revisits {seen : List Identity} {start : Option Identity} {t : Identity}
    (h : g.revisits next seen start = false) (ht : start = some t) :
    Acc (Function.swap (g.Follows next)) t := by
  fun_induction revisits g next seen start generalizing t with
  | case1 => cases ht
  | case2 => cases h
  | case3 seen id hn hd =>
    cases ht
    refine ⟨_, fun u hu => ?_⟩
    obtain ⟨d, hd', -⟩ := hu
    rw [hd] at hd'
    cases hd'
  | case4 seen id hn d hd ih =>
    cases ht
    exact ⟨_, fun u hu => ih h ((follows_iff hd).1 hu)⟩

/-- Where a walk circles, so does the walk that starts one type later. -/
theorem Circles.step {t : Identity} (h : g.Circles next t) :
    ∃ u, g.Follows next t u ∧ g.Circles next u := by
  obtain ⟨v, harrives, hcycle⟩ := h
  rcases harrives.cases_head with rfl | ⟨u, hstep, harrives⟩
  · obtain ⟨u, hstep, harrives⟩ := Relation.TransGen.head'_iff.1 hcycle
    exact ⟨u, hstep, t, harrives, hcycle⟩
  · exact ⟨u, hstep, v, harrives, hcycle⟩

theorem not_circles_of_acc {t : Identity} (h : Acc (Function.swap (g.Follows next)) t) :
    ¬g.Circles next t := by
  induction h with
  | intro t _ ih =>
    intro hcircles
    obtain ⟨u, hstep, hcircles⟩ := hcircles.step
    exact ih u hstep hcircles

variable {d : Descriptor} (hd : g.Has d)
include hd

theorem acc_of_not_revisits (h : g.revisits next [d.identity] (next d) = false) :
    Acc (Function.swap (g.Follows next)) d.identity :=
  ⟨_, fun _ hu => acc_of_revisits h ((follows_iff hd).1 hu)⟩

/-- Coming back is told from the first type on. -/
theorem revisits_iff :
    g.revisits next [d.identity] (next d) = true ↔ g.Circles next d.identity := by
  constructor
  · intro h
    cases hu : next d with
    | none => rw [hu, revisits] at h; cases h
    | some u =>
      have hstep : g.Follows next d.identity u := ⟨d, hd, hu⟩
      obtain ⟨v, harrives, hcycle⟩ := circles_of_revisits h hu fun w hw => by
        rw [List.mem_singleton.1 hw]
        exact .single hstep
      exact ⟨v, .head hstep harrives, hcycle⟩
  · intro h
    cases hrevisits : g.revisits next [d.identity] (next d) with
    | true => rfl
    | false => exact absurd h (not_circles_of_acc (acc_of_not_revisits hd hrevisits))

theorem acc_of_not_circles (h : ¬g.Circles next d.identity) :
    Acc (Function.swap (g.Follows next)) d.identity := by
  rw [← revisits_iff hd, Bool.not_eq_true] at h
  exact acc_of_not_revisits hd h

omit hd

/-! ## §3. Walks that run out -/

theorem Follows.unique {t u v : Identity} (hu : g.Follows next t u) (hv : g.Follows next t v) :
    u = v := by
  obtain ⟨d, hd, hu⟩ := hu
  exact Option.some.inj (hu.symm.trans ((follows_iff hd).1 hv))

/-- A walk that runs out comes past nothing twice, since it goes one way only. -/
theorem RunsOut.not_circles {t : Identity} (h : g.RunsOut next t) : ¬g.Circles next t := by
  obtain ⟨e, he, harrives, hend⟩ := h
  refine not_circles_of_acc ?_
  induction harrives using Relation.ReflTransGen.head_induction_on with
  | refl =>
    refine ⟨_, fun u hu => ?_⟩
    have hnext := (follows_iff he).1 hu
    rw [hend] at hnext
    cases hnext
  | head hstep _ ih => exact ⟨_, fun u hu => hstep.unique hu ▸ ih⟩

/-- Among types whose links lead to known types, a walk that ends does so at a type without the
    link. -/
theorem runsOut_of_acc (hknown : ∀ t u, g.Follows next t u → g.Knows u) {t : Identity}
    (h : Acc (Function.swap (g.Follows next)) t) (ht : g.Knows t) : g.RunsOut next t := by
  induction h with
  | intro t _ ih =>
    obtain ⟨d, hd⟩ := Option.isSome_iff_exists.1 ht
    cases hu : next d with
    | none =>
      refine ⟨d, has_of_find? hd, ?_, hu⟩
      rw [identity_of_find? hd]
    | some u =>
      have hstep : g.Follows next t u := ⟨d, hd, hu⟩
      obtain ⟨e, he, harrives, hend⟩ := ih u hstep (hknown t u hstep)
      exact ⟨e, he, .head hstep harrives, hend⟩

/-- In a closed graph a link that is one of those a type refers by leads to known types. -/
theorem Closed.knows_of_follows (hg : g.Closed)
    (hlinks : ∀ (d : Descriptor) u, next d = some u → u ∈ d.links) {t u : Identity}
    (h : g.Follows next t u) : g.Knows u := by
  obtain ⟨d, hd, hu⟩ := h
  exact hg u ⟨d, has_of_find? hd, hlinks d u hu⟩

/-- Where a closed graph has the same link for each type of both, a walk of the other one that
    starts at a type of both is a walk of it. -/
theorem Closed.arrives_of_alike {g' : Graph} (hg' : g'.Closed)
    (hlinks : ∀ (d : Descriptor) u, next d = some u → u ∈ d.links)
    (halike : ∀ id d d', g.find? id = some d → g'.find? id = some d' → next d = next d')
    {t u : Identity} (h : g.Arrives next t u) (ht : g'.Knows t) :
    g'.Arrives next t u ∧ g'.Knows u := by
  induction h with
  | refl => exact ⟨.refl, ht⟩
  | @tail u v _ hstep ih =>
    obtain ⟨hbefore, hu⟩ := ih
    obtain ⟨d, hd, hv⟩ := hstep
    obtain ⟨d', hd'⟩ := Option.isSome_iff_exists.1 hu
    have hstep' : g'.Follows next u v := ⟨d', hd', halike u d d' hd hd' ▸ hv⟩
    exact ⟨hbefore.tail hstep', hg'.knows_of_follows hlinks hstep'⟩

end EmmyStubs.Graph
