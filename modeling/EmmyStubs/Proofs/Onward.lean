import EmmyStubs.Proofs.Reaching

/-! # What an action returns from a session on

    A member is translated on the session that the members before it have left.  Whatever was
    held at first, others of the same graph have added to it since:

    * **`Session.Onward`**: what more work on a graph makes of a session.
    * **`Action.Returns`**: what an action returns at some time from a session on.  Where earlier
      graphs leave nothing wrong behind, that is what it gives (`Returns.eq_of_gives`).
-/

namespace EmmyStubs

variable {g : Graph} {o : Options} {α : Type}

namespace Session

/-- What more work on a graph makes of a session. -/
inductive Onward (g : Graph) (o : Options) (s : Session) : Session → Prop
  | refl : Onward g o s s
  | work {t : Session} (c : Chore) (hc : c.Within g) (h : Onward g o s t) :
      Onward g o s ((c.action g o).run t).2
  | report {t : Session} (e : Log.Entry) (h : Onward g o s t) :
      Onward g o s (t.serve (.report e)).2

namespace Onward

variable {s t u : Session}

theorem trans (h : Onward g o s t) (h' : Onward g o t u) : Onward g o s u := by
  induction h' with
  | refl => exact h
  | work c hc _ ih => exact ih.work c hc
  | report e _ ih => exact ih.report e

theorem valid {before : Session} {counted : Prop} (hg : ¬counted → g.Closed)
    (h : Onward g o s t) (hs : Session.Valid g o before counted (fun _ => True) s) :
    Session.Valid g o before counted (fun _ => True) t := by
  induction h with
  | refl => exact hs
  | work c hc _ ih => exact ((Chore.meets hg hc _).run ih).1
  | report e _ ih => exact ih.report e

/-- An action does no other work on the session than a translation may. -/
def trait (g : Graph) (o : Options) : Trait Action where
  Of x := ∀ s, Onward g o s (x.run s).2
  pure := fun _ _ => .refl
  bind := by
    intro α β x f hx hf s
    rw [Action.run_bind]
    exact (hx s).trans (hf _ _)

theorem resolve {d : Descriptor} (hd : g.Has d) (s : Session) :
    Onward g o s ((resolve g d).run s).2 := by
  have hchore : Onward g o s (((Chore.name d).action g o).run s).2 := .work (.name d) hd .refl
  rwa [Chore.action, Action.run_bind] at hchore

theorem typeText (asPart : Bool) (id : Identity) (s : Session) :
    Onward g o s ((typeText g o asPart id).run s).2 := by
  have hchore : Onward g o s (((Chore.map id).action g o).run s).2 :=
    .work (.map id) trivial .refl
  rw [Chore.action, Action.run_bind] at hchore
  rwa [EmmyStubs.typeText, Action.run_bind]

theorem serves : (trait g o).Serves g o where
  resolve := resolve
  typeText := fun _ => typeText _ _
  report := fun level source message _ => .report ⟨level, source, message⟩ .refl

end Onward

end Session

/-- At some time from `s` on, the action returns `a`. -/
def Action.Returns (g : Graph) (o : Options) (s : Session) (x : Action α) (a : α) : Prop :=
  ∃ t, s.Onward g o t ∧ (x.run t).1 = a

/-- Where earlier graphs leave nothing wrong behind, an action always returns what it gives. -/
theorem Action.Returns.eq_of_gives {graphs : List Graph} {s : Session} {x : Action α} {a b : α}
    {l : List Identity} (h : x.Returns g o s a)
    (hx : ∀ counted, (¬counted → g.Closed) → Gives g o counted x b l)
    (hs : s.Reachable o graphs) (hg : g.Accords o graphs) : a = b := by
  obtain ⟨t, ht, rfl⟩ := h
  obtain ⟨before, counted, hclosed, hvalid⟩ := hs.exists_valid hg
  exact ((hx counted hclosed).run (fun _ _ => trivial) (ht.valid hclosed hvalid)).1

end EmmyStubs
