import EmmyStubs.Proofs.Translations

/-! # Selections on a shared session

    Selecting types asks for qualified names and reports what it finds; what is selected is
    determined, and is among the types that it is selected from.
-/

namespace EmmyStubs.Selection

variable {g : Graph} {o : Options}

/-- A selection from types of the graph has one result in every valid session. -/
theorem select_determined {types : List Descriptor} {filters : List String}
    (h : ∀ d ∈ types, g.Has d) : Determined g o (select g types filters) :=
  Determined.serves.select h

theorem mem_of_mem_hitTypes {filters : List String} {ds : List Descriptor} {d : Descriptor}
    {s : Session} (h : d ∈ ((hitTypes g filters ds).run s).1) : d ∈ ds := by
  induction ds generalizing s with
  | nil => exact h
  | cons e ds ih =>
    unfold hitTypes at h
    rw [Action.run_bind, Action.run_bind, Action.pure_eq_done, Action.run_done] at h
    split at h
    · rcases List.mem_cons.1 h with rfl | h
      · exact List.mem_cons_self
      · exact List.mem_cons_of_mem e (ih h)
    · exact List.mem_cons_of_mem e (ih h)

/-- What is selected is one of the types. -/
theorem mem_of_mem_select {types : List Descriptor} {filters : List String} {d : Descriptor}
    {s : Session} (h : d ∈ ((select g types filters).run s).1) : d ∈ types := by
  unfold select at h
  rw [Action.run_bind] at h
  split at h
  · exact (List.mem_filter.1 h).1
  · rw [Action.run_bind] at h
    exact (List.mem_filter.1 (mem_of_mem_hitTypes h)).1

end EmmyStubs.Selection
