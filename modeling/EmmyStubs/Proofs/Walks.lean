import EmmyStubs.Proofs.Caches

/-! # Mappings on a stack

    What a mapping does in a valid session, on a stack that is a chain of dependencies:

    * it gives the expression that the recursion without a cache gives on this stack;
    * it falls back on a frame exactly if the type leads to the stack, so a type that is kept
      lies on no cycle, and one that is not lies on one (`frame_meets`);
    * afterwards the cache holds all that the type leads to without crossing the stack, as far
      as it lies on no cycle.

    `Walked` is the second and third of these; `mapOn_meets` is the proof, by induction on the
    number of types that are not on the stack.
-/

namespace EmmyStubs

/-! ## §1. Fall-backs -/

namespace Fallback

theorem eq_or_eq_of_lower {a b : Fallback} {f : Nat} (h : a.lower b = some f) :
    a = some f ∨ b = some f := by
  cases a with
  | none => exact .inr h
  | some x =>
    cases b with
    | none => exact .inl h
    | some y =>
      simp only [lower, Option.some.injEq] at h
      rcases Nat.le_total x y with hxy | hxy
      · exact .inl (by rw [← h, Nat.min_eq_left hxy])
      · exact .inr (by rw [← h, Nat.min_eq_right hxy])

theorem lower_le_left {a : Fallback} {f : Nat} (h : a = some f) (b : Fallback) :
    ∃ f', a.lower b = some f' ∧ f' ≤ f := by
  subst h
  cases b with
  | none => exact ⟨f, rfl, Nat.le_refl f⟩
  | some y => exact ⟨min f y, rfl, Nat.min_le_left f y⟩

theorem lower_le_right {b : Fallback} {f : Nat} (h : b = some f) (a : Fallback) :
    ∃ f', a.lower b = some f' ∧ f' ≤ f := by
  subst h
  cases a with
  | none => exact ⟨f, rfl, Nat.le_refl f⟩
  | some x => exact ⟨min x f, rfl, Nat.min_le_right x f⟩

end Fallback

/-! ## §2. Postconditions of walks -/

namespace Walk

variable {α β : Type} {Inv : Session → Prop} {s : Session}

/-- A walk meets a postcondition on its result, its fall-back and the session. -/
def Meets (Inv : Session → Prop) (Q : α → Fallback → Session → Prop) (x : Walk α)
    (s : Session) : Prop :=
  Action.Meets Inv (fun r s' => Q r.1 r.2 s') (show Action (α × Fallback) from x) s

theorem Meets.imp {Q Q' : α → Fallback → Session → Prop} {x : Walk α} (h : x.Meets Inv Q s)
    (hq : ∀ a low s', s ≤ s' → Inv s' → Q a low s' → Q' a low s') : x.Meets Inv Q' s :=
  Action.Meets.imp h fun r s' => hq r.1 r.2 s'

theorem Meets.pure {Q : α → Fallback → Session → Prop} {a : α}
    (h : ∀ s', s ≤ s' → Inv s' → Q a none s') : (Pure.pure a : Walk α).Meets Inv Q s :=
  Action.Meets.pure h

/-- One walk after another; the lower fall-back counts. -/
theorem Meets.bind {Q : β → Fallback → Session → Prop} {x : Walk α} {f : α → Walk β}
    (h : x.Meets Inv (fun a low s' =>
      (f a).Meets Inv (fun b low' s'' => Q b (low.lower low') s'') s') s) :
    (x >>= f).Meets Inv Q s := by
  refine Action.Meets.bind (Action.Meets.imp h fun r s' _ _ hr => ?_)
  obtain ⟨a, low⟩ := r
  exact Action.Meets.map (f := fun r : β × Fallback => (r.1, low.lower r.2)) hr

/-- An action that maps nothing falls back on nothing. -/
theorem Meets.ofAction {Q : α → Fallback → Session → Prop} {x : Action α}
    (h : x.Meets Inv (fun a s' => Q a none s') s) : (ofAction x).Meets Inv Q s :=
  Action.Meets.map (f := fun a => ((a, none) : α × Fallback)) h

/-- Wherever it starts and whatever others do, a walk keeps an invariant, and its result has a
    property. -/
def Yields (Inv : Session → Prop) (P : α → Prop) (x : Walk α) : Prop :=
  ∀ s, x.Meets Inv (fun a _ _ => P a) s

theorem Yields.pure {P : α → Prop} {a : α} (h : P a) : Yields Inv P (Pure.pure a) :=
  fun _ => Meets.pure fun _ _ _ => h

theorem Yields.bind {P : α → Prop} {Q : β → Prop} {x : Walk α} {f : α → Walk β}
    (hx : Yields Inv P x) (hf : ∀ a, P a → Yields Inv Q (f a)) : Yields Inv Q (x >>= f) :=
  fun s => Meets.bind ((hx s).imp fun a _ s' _ _ ha => hf a ha s')

theorem Yields.imp {P Q : α → Prop} {x : Walk α} (h : Yields Inv P x) (hq : ∀ a, P a → Q a) :
    Yields Inv Q x :=
  fun s => (h s).imp fun a _ _ _ _ ha => hq a ha

end Walk

/-! ## §3. What a mapping leaves behind -/

variable {g : Graph} {o : Options} {counted : Prop} {roots : Identity → Prop}
  {before s s' : Session}

/-- What is true once the types `l` were mapped on `stack`: a fall-back was on a frame that one
    of them leads to; the first type of the stack on a path was fallen back on; and all on a
    path that avoids the stack is held, unless it lies on a cycle. -/
structure Walked (g : Graph) (o : Options) (counted : Prop) (stack l : List Identity)
    (low : Fallback) (s : Session) : Prop where
  lands : ∀ f, low = some f → ∃ u ∈ l, ∃ w, stack.reverse[f]? = some w ∧ g.Leads o u w
  falls : ∀ u ∈ l, ∀ w ∈ stack, g.Avoids o stack u w →
    ∃ f, low = some f ∧ f ≤ stack.reverse.idxOf w
  covers : counted → ∀ u ∈ l, ∀ v, g.Avoids o stack u v → g.Knows v → ¬g.Cyclic o v → s.Holds v

namespace Walked

variable {stack l l' : List Identity} {low low' : Fallback}

theorem nil : Walked g o counted stack [] none s where
  lands := fun _ h => by simp at h
  falls := fun _ h => by simp at h
  covers := fun _ _ h => by simp at h

theorem of_le (h : Walked g o counted stack l low s) (hs : s ≤ s') :
    Walked g o counted stack l low s' where
  lands := h.lands
  falls := h.falls
  covers := fun hc u hu v huv hk hv => (h.covers hc u hu v huv hk hv).of_le hs

theorem append (h : Walked g o counted stack l low s) (h' : Walked g o counted stack l' low' s')
    (hs : s ≤ s') : Walked g o counted stack (l ++ l') (low.lower low') s' where
  lands := by
    intro f hf
    rcases Fallback.eq_or_eq_of_lower hf with hf | hf
    · obtain ⟨u, hu, w, hw, huw⟩ := h.lands f hf
      exact ⟨u, List.mem_append_left l' hu, w, hw, huw⟩
    · obtain ⟨u, hu, w, hw, huw⟩ := h'.lands f hf
      exact ⟨u, List.mem_append_right l hu, w, hw, huw⟩
  falls := by
    intro u hu w hw huw
    rcases List.mem_append.1 hu with hu | hu
    · obtain ⟨f, hf, hle⟩ := h.falls u hu w hw huw
      obtain ⟨f', hf', hle'⟩ := Fallback.lower_le_left hf low'
      exact ⟨f', hf', Nat.le_trans hle' hle⟩
    · obtain ⟨f, hf, hle⟩ := h'.falls u hu w hw huw
      obtain ⟨f', hf', hle'⟩ := Fallback.lower_le_right hf low
      exact ⟨f', hf', Nat.le_trans hle' hle⟩
  covers := by
    intro hc u hu v huv hk hv
    rcases List.mem_append.1 hu with hu | hu
    · exact (h.covers hc u hu v huv hk hv).of_le hs
    · exact h'.covers hc u hu v huv hk hv

/-- What is to be shown when a single type was mapped. -/
theorem single {id : Identity}
    (hlands : ∀ f, low = some f → ∃ w, stack.reverse[f]? = some w ∧ g.Leads o id w)
    (hfalls : ∀ w ∈ stack, g.Avoids o stack id w →
      ∃ f, low = some f ∧ f ≤ stack.reverse.idxOf w)
    (hcovers : counted → ∀ v, g.Avoids o stack id v → g.Knows v → ¬g.Cyclic o v → s.Holds v) :
    Walked g o counted stack [id] low s where
  lands := fun f hf => ⟨id, List.mem_singleton_self id, hlands f hf⟩
  falls := by
    intro u hu w hw huw
    rw [List.mem_singleton.1 hu] at huw
    exact hfalls w hw huw
  covers := by
    intro hc u hu v huv hk hv
    rw [List.mem_singleton.1 hu] at huv
    exact hcovers hc v huv hk hv

/-- A type without a descriptor leads nowhere. -/
theorem of_unknown {id : Identity} (hn : id ∉ stack) (hd : g.find? id = none) :
    Walked g o counted stack [id] none s := by
  have hnowhere : ∀ v, g.Avoids o stack id v → v = id := by
    intro v hv
    cases hv with
    | refl => rfl
    | step _ hdep _ =>
      obtain ⟨d, hd', -⟩ := Graph.depends_iff.1 hdep
      rw [hd] at hd'
      exact absurd hd' (by simp)
  refine single (fun _ h => absurd h (by simp)) (fun w hw hid => ?_) (fun _ v hid hk _ => ?_)
  · exact absurd (hnowhere w hid ▸ hw) hn
  · rw [hnowhere v hid, Graph.Knows, hd] at hk
    exact absurd hk (by simp)

/-- A type of the stack is fallen back on. -/
theorem of_mem {id : Identity} (h : id ∈ stack) (hcyc : g.Cyclic o id) :
    Walked g o counted stack [id] (some (stack.reverse.idxOf id)) s := by
  -- A path that avoids the stack does not get away from `id`.
  have hstays : ∀ v, g.Avoids o stack id v → v = id := by
    intro v hv
    cases hv with
    | refl => rfl
    | step hn _ _ => exact absurd h hn
  refine single (fun f hf => ?_) (fun w _ hid => ?_) (fun _ v hid _ hv => ?_)
  · have hmem : id ∈ stack.reverse := List.mem_reverse.2 h
    refine ⟨id, ?_, .refl⟩
    rw [← Option.some.inj hf, List.getElem?_eq_getElem (List.idxOf_lt_length_iff.2 hmem),
      List.getElem_idxOf]
  · exact ⟨_, rfl, Nat.le_of_eq (by rw [hstays w hid])⟩
  · exact absurd (hstays v hid ▸ hcyc) hv

/-- A type that is held leads to no frame, and all that it leads to is held. -/
theorem of_held {id : Identity} (hpath : g.OnPath o stack id) (hcyc : ¬g.Cyclic o id)
    (hclosed : counted → ∀ u, g.Leads o id u → g.Knows u → ¬g.Cyclic o u → s.Holds u) :
    Walked g o counted stack [id] none s := by
  refine single (fun _ h => absurd h (by simp)) (fun w hw hid => ?_) (fun hc v hid hk hv => ?_)
  · exact absurd (hpath.cyclic hw hid.leads) hcyc
  · exact hclosed hc v hid.leads hk hv

/-! ### The frame of a type

    Here `id` was mapped on `stack`, so its dependencies were mapped on `id :: stack`. -/

variable {id : Identity} {d : Descriptor}

/-- A type on a cycle falls back on its own frame or on one below it. -/
theorem acyclic_of_none (h : Walked g o counted (id :: stack) (g.dependencies o d) none s)
    (hd : g.find? id = some d) : ¬g.Cyclic o id := by
  intro hcyc
  -- The cycle leaves `id` by a dependency and comes back to the stack, at `id` or before; that is
  -- where the dependency would have fallen back.
  obtain ⟨u, hu, hback⟩ := Relation.TransGen.head'_iff.1 hcyc
  obtain ⟨w, hw, huw⟩ := Graph.exists_avoids hback (List.mem_cons_self (l := stack))
  obtain ⟨f, hf, -⟩ := h.falls u (Graph.mem_of_depends hd hu) w hw huw
  exact absurd hf (by simp)

/-- A fall-back on the own frame or on one below it shows a cycle. -/
theorem cyclic_of_some {f : Nat}
    (h : Walked g o counted (id :: stack) (g.dependencies o d) (some f) s)
    (hd : g.find? id = some d) (hpath : g.OnPath o stack id) : g.Cyclic o id := by
  obtain ⟨u, hu, w, hw, huw⟩ := h.lands f rfl
  -- The frame fallen back on is `id` or leads to it, so the way there closes a cycle.
  have hback : g.Leads o w id := by
    rcases List.mem_cons.1 (List.mem_reverse.1 (List.mem_of_getElem? hw)) with rfl | hw
    · exact .refl
    · exact (hpath.leads w hw).to_reflTransGen
  exact .head' (Graph.depends_of_mem hd hu) (huw.trans hback)

/-- The type of a frame without a fall-back, once it is held. -/
theorem of_kept (h : Walked g o counted (id :: stack) (g.dependencies o d) none s)
    (hd : g.find? id = some d) (hpath : g.OnPath o stack id) (hs : s ≤ s') (hid : s'.Holds id) :
    Walked g o counted stack [id] none s' := by
  have hcyc := h.acyclic_of_none hd
  refine of_held hpath hcyc fun hc v hv hk hvc => ?_
  -- All but `id` itself is reached by way of a dependency.
  by_cases hne : id = v
  · exact hne ▸ hid
  · have havoid := Graph.avoids_of_leads hv fun w hw hl => hcyc (hpath.cyclic hw hl)
    obtain ⟨u, hu, huv⟩ := havoid.from_dependency hne
    exact (h.covers hc u (Graph.mem_of_depends hd hu) v huv hk hvc).of_le hs

/-- The type of a frame with a fall-back; one on this very frame is not passed on. -/
theorem of_fallen {f : Nat}
    (h : Walked g o counted (id :: stack) (g.dependencies o d) (some f) s)
    (hd : g.find? id = some d) (hpath : g.OnPath o stack id) (hn : id ∉ stack) :
    Walked g o counted stack [id] (if f < stack.length then some f else none) s := by
  refine single (fun f' hf' => ?_) (fun w hw hid => ?_) (fun hc v hid hk hv => ?_)
  · by_cases hlt : f < stack.length
    · rw [if_pos hlt, Option.some.injEq] at hf'
      obtain ⟨u, hu, w, hw, huw⟩ := h.lands f rfl
      -- Frames are counted from the bottom, so those of `stack` keep their numbers.
      rw [List.reverse_cons, List.getElem?_append_left (by simpa using hlt)] at hw
      have hlead : g.Leads o id w := .head (Graph.depends_of_mem hd hu) huw
      exact ⟨w, hf' ▸ hw, hlead⟩
    · rw [if_neg hlt] at hf'
      exact absurd hf' (by simp)
  · have hne : id ≠ w := fun heq => hn (heq ▸ hw)
    obtain ⟨v, hv, hvw⟩ := hid.from_dependency hne
    obtain ⟨f', hf', hle⟩ :=
      h.falls v (Graph.mem_of_depends hd hv) w (List.mem_cons_of_mem id hw) hvw
    rw [Option.some.injEq] at hf'
    subst hf'
    have hmem : w ∈ stack.reverse := List.mem_reverse.2 hw
    rw [List.reverse_cons, List.idxOf_append, if_pos hmem] at hle
    have hlt : stack.reverse.idxOf w < stack.length := by
      have := List.idxOf_lt_length_iff.2 hmem
      rwa [List.length_reverse] at this
    exact ⟨f, if_pos (Nat.lt_of_le_of_lt hle hlt), hle⟩
  · -- `id` itself lies on a cycle, so it need not be held.
    have hne : id ≠ v := fun heq => hv (heq ▸ h.cyclic_of_some hd hpath)
    obtain ⟨w, hw, hwv⟩ := hid.from_dependency hne
    exact h.covers hc w (Graph.mem_of_depends hd hw) v hwv hk hv

end Walked

/-! ## §4. The mapper -/

/-- What walks that map the types `l` on `stack` have in common. -/
def walkTally (g : Graph) (o : Options) (before : Session) (counted : Prop)
    (roots : Identity → Prop) (stack : List Identity) : Tally Walk where
  Holds := fun x a l => ∀ s, x.Meets (Session.Valid g o before counted roots)
    (fun b low s' => b = a ∧ Walked g o counted stack l low s') s
  pure := fun a s => Walk.Meets.pure fun _ _ _ => ⟨rfl, .nil⟩
  bind := by
    intro α β x f a b l l' hx hf s
    refine Walk.Meets.bind ((hx s).imp ?_)
    rintro _ low s₁ - - ⟨rfl, hw⟩
    refine (hf s₁).imp ?_
    rintro _ low' s₂ hs - ⟨rfl, hw'⟩
    exact ⟨rfl, hw.append hw' hs⟩

/-- What a frame does once its dependencies are mapped: without a fall-back the type lies on no
    cycle and is stored; with one it lies on a cycle and is not. -/
theorem frame_meets {stack : List Identity} {id : Identity} {d : Descriptor}
    {x : Walk TypeExpr} (hn : id ∉ stack) (hd : g.find? id = some d)
    (hpath : g.OnPath o stack id) (hroot : ∃ r, roots r ∧ g.Leads o r id)
    (hx : x.Meets (Session.Valid g o before counted roots) (fun t low s' =>
      t = g.exprOn o stack id ∧ Walked g o counted (id :: stack) (g.dependencies o d) low s') s) :
    (Walk.frame stack.length id x).Meets (Session.Valid g o before counted roots)
      (fun t low s' => t = g.exprOn o stack id ∧ Walked g o counted stack [id] low s') s := by
  have hknows : g.Knows id := by rw [Graph.Knows, hd]; rfl
  refine Action.Meets.bind (Action.Meets.imp hx ?_)
  rintro ⟨t, low⟩ s₁ - - ⟨ht, hw⟩
  change t = g.exprOn o stack id at ht
  cases low with
  | some f =>
    refine Action.Meets.pure fun s₂ hs₂ _ => ⟨ht, ?_⟩
    exact (hw.of_fallen hd hpath hn).of_le hs₂
  | none =>
    have hcyc := hw.acyclic_of_none hd
    -- On no cycle, the stack cannot be reached, and does not show.
    have hexpr : t = g.expr o id :=
      ht.trans (Graph.exprOn_eq_expr fun w hw hl => hcyc (hpath.cyclic hw hl))
    rw [hexpr] at ht ⊢
    show Walk.Meets (Session.Valid g o before counted roots)
      (fun t low s' => t = g.exprOn o stack id ∧ Walked g o counted stack [id] low s')
      (Walk.ofAction (Action.request (.mapping (.store id (g.expr o id))))) s₁
    refine Walk.Meets.ofAction (Action.Meets.request fun s₂ hs₂ h₂ => ?_)
    have hstore := h₂.mapping_store hknows hcyc fun hc => ⟨hroot, fun u hu hne hk hv => by
      have havoid := Graph.avoids_of_leads hu fun w hw hl => hcyc (hpath.cyclic hw hl)
      obtain ⟨v, hv', hvu⟩ := havoid.from_dependency (Ne.symm hne)
      exact (hw.covers hc v (Graph.mem_of_depends hd hv') u hvu hk hv).of_le hs₂⟩
    have hheld : (s₂.serve (.mapping (.store id (g.expr o id)))).2.mappings.held? id = _ :=
      s₂.mappings.store_answer id (g.expr o id)
    -- Others may have stored the type before; the answer is the entry that is held, which is right.
    refine ⟨hstore, fun s₃ hs₃ _ => ⟨?_, ?_⟩⟩
    · exact (hstore.faithful.value id _ hknows hheld).trans ht
    · have hgrow : s₁ ≤ s₃ := le_trans hs₂ (le_trans (Session.le_serve s₂ _) hs₃)
      exact hw.of_kept hd hpath hgrow ((Session.holds_of_held? hheld).of_le hs₃)

/-- In any valid session, on any chain of dependencies, a mapping gives the expression without
    a cache. -/
theorem mapOn_meets {stack : List Identity} {id : Identity} (hpath : g.OnPath o stack id)
    (hroot : ∃ r, roots r ∧ g.Leads o r id)
    (hscope : ¬counted → ∀ t, g.Leads o id t → g.Knows t) (s : Session) :
    (mapOn g o stack id).Meets (Session.Valid g o before counted roots)
      (fun t low s' => t = g.exprOn o stack id ∧ Walked g o counted stack [id] low s') s := by
  -- By induction on the number of types of the graph that are not on the stack.
  induction hsize : g.unseen stack using Nat.strongRecOn generalizing stack id s with
  | ind n ih =>
  rw [mapOn]
  refine Walk.Meets.bind (Walk.Meets.ofAction (Action.Meets.request fun s₁ _ h₁ => ?_))
  refine ⟨h₁.mapping_get id, fun s₂ hs₂ _ => ?_⟩
  have hgrow : s₁ ≤ s₂ := le_trans (Session.le_serve s₁ _) hs₂
  rw [Session.serve_mapping_get]
  cases hheld : s₁.mappings.held? id with
  | some t =>
    -- A session that other graphs were mapped on may hold types that are not in this one.
    have hknows : g.Knows id := by
      by_cases hc : counted
      · exact (h₁.accounted hc).known id (Session.holds_of_held? hheld)
      · exact hscope hc id .refl
    have hcyc := h₁.faithful.acyclic id t hknows hheld
    refine Walk.Meets.pure fun s₃ hs₃ _ => ⟨?_, ?_⟩
    · rw [h₁.faithful.value id t hknows hheld]
      exact (Graph.exprOn_eq_expr fun w hw hl => hcyc (hpath.cyclic hw hl)).symm
    · refine .of_held hpath hcyc fun hc u hu hk hv => ?_
      -- What is held comes with all that it leads to.
      have hclosed := (h₁.accounted hc).closed id (Session.holds_of_held? hheld) u hu hk hv
      exact hclosed.of_le (le_trans hgrow hs₃)
  | none =>
    dsimp only
    split
    · next hmem =>
      refine Walk.Meets.bind (Walk.Meets.ofAction (report_meets fun s₃ _ _ => ?_))
      refine Action.Meets.pure fun s₄ _ _ => ?_
      -- A type of the stack leads to itself, since it leads to every type mapped above it.
      exact ⟨(Graph.exprOn_of_mem hmem).symm, .of_mem hmem (hpath.leads id hmem)⟩
    · next hn =>
      split
      · next hd =>
        exact Walk.Meets.pure fun s₃ _ _ =>
          ⟨(Graph.exprOn_of_unknown hd).symm, .of_unknown hn hd⟩
      · next d hd =>
        refine frame_meets hn hd hpath hroot ?_
        rw [Graph.exprOn_of_find? hn hd]
        -- The dependencies are mapped with one more type on the stack.
        let around : Surroundings Walk :=
          { graph := g
            options := o
            resolve := fun d => Walk.ofAction (resolve g d)
            map := fun id' => mapOn g o (id :: stack) id' }
        refine (walkTally g o before counted roots (id :: stack)).compute (e := around)
          (g.exprOn o (id :: stack)) ?_ ?_ s₂
        · intro s₃
          refine Walk.Meets.ofAction ((resolve_meets (Graph.has_of_find? hd)).imp ?_)
          exact fun name s₄ _ _ hname => ⟨hname, .nil⟩
        · intro u hu s₃
          have hdep : g.Depends o id u := Graph.depends_of_mem hd hu
          have hpath' : g.OnPath o (id :: stack) u := ⟨hdep, hpath⟩
          obtain ⟨r, hr, hrid⟩ := hroot
          exact ih _ (hsize ▸ Graph.unseen_cons_lt hd hn) hpath' ⟨r, hr, hrid.tail hdep⟩
            (fun hc t ht => hscope hc t (.head hdep ht)) s₃ rfl

/-- In any valid session a type gets its expression, and afterwards all that it leads to is held,
    unless it lies on a cycle. -/
theorem mapType_meets {id : Identity} (hroot : ∃ r, roots r ∧ g.Leads o r id)
    (hscope : ¬counted → ∀ t, g.Leads o id t → g.Knows t) (s : Session) :
    (mapType g o id).Meets (Session.Valid g o before counted roots)
      (fun t s' => t = g.expr o id ∧
        (counted → ∀ v, g.Leads o id v → g.Knows v → ¬g.Cyclic o v → s'.Holds v)) s := by
  have hpath : g.OnPath o [] id := trivial
  have hmap : (mapOn g o [] id).Meets (Session.Valid g o before counted roots) _ s :=
    mapOn_meets hpath hroot hscope s
  refine Action.Meets.map (f := fun r : TypeExpr × Fallback => r.1) (Action.Meets.imp hmap ?_)
  rintro ⟨t, low⟩ s' - - ⟨ht, hw⟩
  refine ⟨ht, fun hc v hv hk hvc => ?_⟩
  -- Every path avoids the empty stack.
  have havoid : g.Avoids o [] id v := Graph.avoids_of_leads hv (by simp)
  exact hw.covers hc id (List.mem_singleton_self id) v havoid hk hvc

end EmmyStubs
