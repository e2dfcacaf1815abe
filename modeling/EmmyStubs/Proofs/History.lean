import EmmyStubs.Proofs.Walks

/-! # Earlier mappings

    Types are mapped one after the other on one session, whose cache of mappings fills up:

    * **`mapAll_run`**: whatever was mapped, the session is valid for these types as roots, and
      all that they lead to is held, as far as it lies on no cycle.
    * **`mapType_independent_of_history`**: so earlier mappings show neither in the expression
      of a type nor, apart from the types that they reach, in the cache.
-/

namespace EmmyStubs

variable {g : Graph} {o : Options}

/-- Maps some types in turn. -/
def mapAll (g : Graph) (o : Options) : List Identity → Action (List TypeExpr)
  | [] => return []
  | id :: ids => do
    let t ← mapType g o id
    let ts ← mapAll g o ids
    return t :: ts

/-- In any valid session, each type of a list gets its expression. -/
theorem mapAll_meets {roots : Identity → Prop} {ids : List Identity}
    (hroots : ∀ id ∈ ids, roots id) (s : Session) :
    (mapAll g o ids).Meets (Session.Valid g o .start True roots)
      (fun ts s' => ts = ids.map (g.expr o) ∧ s'.Complete g o (· ∈ ids)) s := by
  induction ids generalizing s with
  | nil => exact Action.Meets.pure fun _ _ _ => ⟨rfl, fun r hr => absurd hr (by simp)⟩
  | cons id ids ih =>
    have hroot : ∃ r, roots r ∧ g.Leads o r id := ⟨id, hroots id (by simp), .refl⟩
    have hmap : (mapType g o id).Meets (Session.Valid g o .start True roots) _ s :=
      mapType_meets hroot (fun h => absurd trivial h) s
    refine Action.Meets.bind (hmap.imp ?_)
    rintro _ s₁ - - ⟨rfl, hfirst⟩
    have hids := ih (fun id' hid => hroots id' (List.mem_cons_of_mem id hid)) s₁
    refine Action.Meets.bind (hids.imp ?_)
    rintro _ s₂ hs₂ - ⟨rfl, hrest⟩
    refine Action.Meets.pure fun s₃ hs₃ _ => ⟨rfl, fun r hr t ht hk hc => ?_⟩
    -- What the first type leads to was held before the others were mapped, and still is.
    rcases List.mem_cons.1 hr with rfl | hr
    · exact (hfirst trivial t ht hk hc).of_le (le_trans hs₂ hs₃)
    · exact (hrest r hr t ht hk hc).of_le hs₃

/-- What some mappings leave behind in a new session. -/
theorem mapAll_run (ids : List Identity) :
    Session.Valid g o .start True (· ∈ ids) ((mapAll g o ids).run Session.start).2 ∧
      ((mapAll g o ids).run Session.start).2.Complete g o (· ∈ ids) := by
  have hmap : (mapAll g o ids).Meets (Session.Valid g o .start True (· ∈ ids)) _ Session.start :=
    mapAll_meets (fun _ hid => hid) Session.start
  obtain ⟨hvalid, -, hcomplete⟩ := hmap.run Session.valid_start
  exact ⟨hvalid, hcomplete⟩

/-- In a session on which some roots were mapped, every type gets its expression. -/
theorem mapType_run {roots : Identity → Prop} {s : Session}
    (hs : Session.Valid g o .start True roots s) (id : Identity) :
    ((mapType g o id).run s).1 = g.expr o id := by
  have hvalid : Session.Valid g o .start True (fun r => roots r ∨ r = id) s :=
    hs.of_roots fun _ hr => .inl hr
  have hroot : ∃ r, (roots r ∨ r = id) ∧ g.Leads o r id := ⟨id, .inr rfl, .refl⟩
  have hmap : (mapType g o id).Meets (Session.Valid g o .start True _) _ s :=
    mapType_meets hroot (fun h => absurd trivial h) s
  exact (hmap.run hvalid).2.1

/-- Whatever was mapped before, a type gets the expression that it has without a cache.  The
    cache holds just the types of the graph that the earlier ones lead to and that lie on no
    cycle of dependencies, each with that expression; so no type is held that comes, by way of
    one of its dependencies, back to itself or to one being mapped around it. -/
theorem mapType_independent_of_history (g : Graph) (o : Options) (earlier : List Identity)
    (id : Identity) :
    let s := ((mapAll g o earlier).run Session.start).2
    ((mapType g o id).run s).1 = g.expr o id ∧
    (∀ t e, s.mappings.held? t = some e ↔
      g.Knows t ∧ (∃ r ∈ earlier, g.Leads o r t) ∧ ¬g.Cyclic o t ∧ e = g.expr o t) ∧
    ∀ stack t u w, g.OnPath o stack t → g.Depends o t u → w ∈ t :: stack →
      g.Avoids o (t :: stack) u w → s.mappings.held? t = none := by
  intro s
  obtain ⟨hvalid, hcomplete⟩ := mapAll_run (g := g) (o := o) earlier
  have hheld := hvalid.held?_iff hcomplete
  refine ⟨?_, hheld, ?_⟩
  · -- Mapping `id` adds to the cache what it leads to, so it counts as one more root.
    have hvalid' : Session.Valid g o .start True (fun r => r ∈ earlier ∨ r = id) s :=
      hvalid.of_roots fun _ hr => .inl hr
    have hroot : ∃ r, (r ∈ earlier ∨ r = id) ∧ g.Leads o r id := ⟨id, .inr rfl, .refl⟩
    have hmap : (mapType g o id).Meets (Session.Valid g o .start True _) _ s :=
      mapType_meets hroot (fun h => absurd trivial h) s
    exact (hmap.run hvalid').2.1
  · intro stack t u w hpath hdep hw havoid
    -- A dependency of `t` leads to a frame, and every frame leads to `t`: `t` lies on a cycle.
    have hback : g.Leads o w t := by
      rcases List.mem_cons.1 hw with rfl | hw
      · exact .refl
      · exact (hpath.leads w hw).to_reflTransGen
    have hcyc : g.Cyclic o t := .head' hdep (havoid.leads.trans hback)
    rw [← Option.not_isSome_iff_eq_none]
    intro hsome
    obtain ⟨e, he⟩ := Option.isSome_iff_exists.1 hsome
    exact ((hheld t e).1 he).2.2.1 hcyc

end EmmyStubs
