import EmmyStubs.Proofs.Dependencies

/-! # Mapping without a cache

    The same recursion as `mapOn`, guarded by the same stack, but with nothing kept between
    calls: `Graph.exprOn`.  What it gives hangs on the stack only as far as dependencies lead
    from the type to the stack (`exprOn_congr`).

    §2 has the paths that a mapping follows.  The types around the one being mapped form a
    chain of dependencies (`OnPath`), and a mapping gets as far as the first type of the stack
    on every path (`Avoids`).
-/

namespace EmmyStubs.Graph

variable {g : Graph} {o : Options}

/-! ## §1. The recursion -/

/-- The expression of a type, `stack` holding the types being mapped around it. -/
def exprOn (g : Graph) (o : Options) (stack : List Identity) (id : Identity) : TypeExpr :=
  if _hn : id ∈ stack then ⟨Lua.userdata, false⟩
  else
    match _hd : g.find? id with
    | none => ⟨Lua.userdata, false⟩
    | some d => (Surroundings.plain g o fun id' => exprOn g o (id :: stack) id').compute d
termination_by g.unseen stack
decreasing_by exact unseen_cons_lt _hd _hn

/-- The expression of a type on its own. -/
def expr (g : Graph) (o : Options) (id : Identity) : TypeExpr :=
  g.exprOn o [] id

theorem exprOn_of_mem {stack : List Identity} {id : Identity} (h : id ∈ stack) :
    g.exprOn o stack id = ⟨Lua.userdata, false⟩ := by
  rw [exprOn, dif_pos h]

theorem exprOn_of_unknown {stack : List Identity} {id : Identity} (h : g.find? id = none) :
    g.exprOn o stack id = ⟨Lua.userdata, false⟩ := by
  rw [exprOn]
  split
  · rfl
  · split
    · rfl
    · next d hd => rw [h] at hd; exact absurd hd (by simp)

theorem exprOn_of_find? {stack : List Identity} {id : Identity} {d : Descriptor}
    (hn : id ∉ stack) (hd : g.find? id = some d) :
    g.exprOn o stack id = (Surroundings.plain g o (g.exprOn o (id :: stack))).compute d := by
  rw [exprOn, dif_neg hn]
  split
  · next h => rw [hd] at h; exact absurd h (by simp)
  · next d' hd' =>
    rw [hd, Option.some.injEq] at hd'
    rw [hd']

/-- Two stacks that hold the same of the types reached from `id` give it one expression. -/
theorem exprOn_congr {stack stack' : List Identity} {id : Identity}
    (h : ∀ w, g.Leads o id w → (w ∈ stack ↔ w ∈ stack')) :
    g.exprOn o stack id = g.exprOn o stack' id := by
  fun_induction exprOn g o stack id generalizing stack' with
  | case1 stack id hmem =>
    exact (exprOn_of_mem ((h id .refl).1 hmem)).symm
  | case2 stack id hn hd =>
    exact (exprOn_of_unknown hd).symm
  | case3 stack id hn d hd ih =>
    have hn' : id ∉ stack' := fun hmem => hn ((h id .refl).2 hmem)
    rw [exprOn_of_find? hn' hd]
    -- The dependencies are mapped with `id` on either stack.
    refine Surroundings.plain_congr fun u hu => ih u fun w hw => ?_
    have hleads : g.Leads o id w := .head (depends_of_mem hd hu) hw
    simp only [List.mem_cons, h w hleads]

/-- From no type of the stack being reached, nothing of the stack shows. -/
theorem exprOn_eq_expr {stack : List Identity} {id : Identity}
    (h : ∀ w ∈ stack, ¬g.Leads o id w) : g.exprOn o stack id = g.expr o id :=
  exprOn_congr fun w hw => ⟨fun hmem => absurd hw (h w hmem), fun hmem => by simp at hmem⟩

/-! ## §2. Paths -/

/-- Every type of the stack depends on the one before it, the first on `id`. -/
def OnPath (g : Graph) (o : Options) : List Identity → Identity → Prop
  | [], _ => True
  | t :: stack, id => g.Depends o t id ∧ g.OnPath o stack t

/-- The types of the stack lead to the one being mapped. -/
theorem OnPath.leads {stack : List Identity} {id : Identity} (h : g.OnPath o stack id) :
    ∀ w ∈ stack, Relation.TransGen (g.Depends o) w id := by
  induction stack generalizing id with
  | nil => simp
  | cons t stack ih =>
    intro w hw
    rcases List.mem_cons.1 hw with rfl | hw
    · exact .single h.1
    · exact (ih h.2 w hw).tail h.1

/-- A type that leads back to the stack lies on a cycle. -/
theorem OnPath.cyclic {stack : List Identity} {id : Identity} (h : g.OnPath o stack id)
    {w : Identity} (hw : w ∈ stack) (hl : g.Leads o id w) : g.Cyclic o id :=
  .trans_right hl (h.leads w hw)

/-- A path from `u` to `v` whose types before `v` are not on the stack. -/
inductive Avoids (g : Graph) (o : Options) (stack : List Identity) : Identity → Identity → Prop
  | refl (v : Identity) : Avoids g o stack v v
  | step {u w v : Identity} (hn : u ∉ stack) (hd : g.Depends o u w)
      (h : Avoids g o stack w v) : Avoids g o stack u v

theorem Avoids.leads {stack : List Identity} {u v : Identity} (h : g.Avoids o stack u v) :
    g.Leads o u v := by
  induction h with
  | refl => exact .refl
  | step _ hd _ ih => exact .head hd ih

/-- A path to the stack has a first type that is on it. -/
theorem exists_avoids {stack : List Identity} {u w : Identity} (h : g.Leads o u w)
    (hw : w ∈ stack) : ∃ w' ∈ stack, g.Avoids o stack u w' := by
  induction h using Relation.ReflTransGen.head_induction_on with
  | refl => exact ⟨w, hw, .refl w⟩
  | @head a c hd _ ih =>
    by_cases ha : a ∈ stack
    · exact ⟨a, ha, .refl a⟩
    · obtain ⟨w', hw', hc⟩ := ih
      exact ⟨w', hw', .step ha hd hc⟩

/-- A path that no type of the stack is reached by avoids the stack. -/
theorem avoids_of_leads {stack : List Identity} {u v : Identity} (h : g.Leads o u v)
    (hn : ∀ w ∈ stack, ¬g.Leads o u w) : g.Avoids o stack u v := by
  induction h using Relation.ReflTransGen.head_induction_on with
  | refl => exact .refl v
  | @head a c hd _ ih =>
    refine .step (fun ha => hn a ha .refl) hd (ih fun w hw hc => hn w hw (.head hd hc))

/-- A path either avoids `x` as well, or goes on from its last visit to `x`. -/
theorem Avoids.last_visit {stack : List Identity} {u v : Identity} (h : g.Avoids o stack u v)
    (x : Identity) :
    g.Avoids o (x :: stack) u v ∨ ∃ w, g.Depends o x w ∧ g.Avoids o (x :: stack) w v := by
  induction h with
  | refl v => exact .inl (.refl v)
  | @step u w v hn hd _ ih =>
    -- `ih` is about the path from `w` on; `u` may be the last visit to `x` itself.
    rcases ih with ih | ih
    · by_cases hux : u = x
      · exact .inr ⟨w, hux ▸ hd, ih⟩
      · exact .inl (.step (by simp [hux, hn]) hd ih)
    · exact .inr ih

/-- A path from `id` to another type goes on from a dependency of `id`, to which it does not
    come back. -/
theorem Avoids.from_dependency {stack : List Identity} {id v : Identity}
    (h : g.Avoids o stack id v) (hne : id ≠ v) :
    ∃ u, g.Depends o id u ∧ g.Avoids o (id :: stack) u v := by
  -- A path that avoids `id` and starts there is empty.
  rcases h.last_visit id with h | h
  · cases h with
    | refl => exact absurd rfl hne
    | step hn => exact absurd List.mem_cons_self hn
  · exact h

end EmmyStubs.Graph
