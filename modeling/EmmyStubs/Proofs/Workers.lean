import Mathlib.Data.Multiset.AddSub
import Mathlib.Logic.Hydra
import EmmyStubs.Proofs.Sharing

/-! # Workers on a shared session

    Each worker of a pool has a queue of tasks and works on the first of them.  A step of the
    pool serves one request of one worker, or puts a result down; which worker comes next is
    left open, so the steps of all workers mix in any order.

    * **`Pool.Sound`**: the session satisfies an invariant, what is left of each task meets its
      postcondition from there on, and each result has met it.  A step keeps this.
    * **`Pool.indices`**: a step neither loses a task nor makes one.
    * **`Pool.wellFounded_step`, `Pool.exists_step`**: the steps come to an end, and only where
      no task is left.
-/

namespace EmmyStubs

variable {α : Type}

/-! ## §1. Pools -/

/-- What is left of one piece of work, whose result goes to the place `index`. -/
structure Task (α : Type) where
  index : Nat
  rest : Action α

/-- The workers with their queues, the session that they share, and the results put down. -/
structure Pool (α : Type) where
  workers : List (List (Task α))
  session : Session
  results : List (Nat × α)

namespace Pool

def start (workers : List (List (Task α))) : Pool α :=
  ⟨workers, Session.start, []⟩

/-- No worker has anything left to do. -/
def Done (p : Pool α) : Prop :=
  ∀ queue ∈ p.workers, queue = []

/-- The result at a place. -/
def result? (p : Pool α) (index : Nat) : Option α :=
  (p.results.find? (·.1 == index)).map (·.2)

/-- One step of one worker. -/
inductive Step : Pool α → Pool α → Prop
  | serve (before after queue : List _) (i : Nat) (r : Request) (next : r.Answer → Action α)
      (s : Session) (results : List (Nat × α)) :
      Step ⟨before ++ (⟨i, .ask r next⟩ :: queue) :: after, s, results⟩
        ⟨before ++ (⟨i, next (s.serve r).1⟩ :: queue) :: after, (s.serve r).2, results⟩
  | putDown (before after queue : List _) (i : Nat) (a : α) (s : Session)
      (results : List (Nat × α)) :
      Step ⟨before ++ (⟨i, .done a⟩ :: queue) :: after, s, results⟩
        ⟨before ++ queue :: after, s, (i, a) :: results⟩

/-- Any number of steps, of any workers in any order. -/
abbrev Steps : Pool α → Pool α → Prop :=
  Relation.ReflTransGen Step

/-! ## §2. What steps keep -/

/-- The places of all tasks, those put down included. -/
def indices (p : Pool α) : List Nat :=
  p.workers.flatten.map Task.index ++ p.results.map (·.1)

theorem Step.indices_perm {p p' : Pool α} (h : p.Step p') : p'.indices.Perm p.indices := by
  cases h with
  | serve before after queue i r next s results => simp [indices]
  | putDown before after queue i a s results =>
    simp only [indices, List.flatten_append, List.flatten_cons, List.map_append, List.map_cons,
      List.append_assoc, List.cons_append]
    refine List.Perm.append_left _ ?_
    rw [← List.append_assoc, ← List.append_assoc]
    exact List.perm_middle

theorem Steps.indices_perm {p p' : Pool α} (h : p.Steps p') : p'.indices.Perm p.indices := by
  induction h with
  | refl => exact .refl _
  | tail _ hstep ih => exact hstep.indices_perm.trans ih

/-- `Q i` is promised for what is put down at `i`, under the invariant `Inv`. -/
structure Sound (Inv : Session → Prop) (Q : Nat → α → Session → Prop) (p : Pool α) : Prop where
  session : Inv p.session
  tasks : ∀ queue ∈ p.workers, ∀ t ∈ queue, t.rest.Meets Inv (Q t.index) p.session
  results : ∀ r ∈ p.results, ∀ s, p.session ≤ s → Inv s → Q r.1 r.2 s

variable {Inv : Session → Prop} {Q : Nat → α → Session → Prop}

/-- The other tasks of a pool do not mind one more request. -/
theorem Sound.others {p : Pool α} (h : p.Sound Inv Q) {s : Session} (hs : p.session ≤ s)
    {queue : List (Task α)} (hq : queue ∈ p.workers) :
    ∀ t ∈ queue, t.rest.Meets Inv (Q t.index) s :=
  fun t ht => (h.tasks queue hq t ht).of_le hs

theorem Step.sound {p p' : Pool α} (h : p.Step p') (hp : p.Sound Inv Q) : p'.Sound Inv Q := by
  cases h with
  | serve before after queue i r next s results =>
    have htask := hp.tasks (⟨i, .ask r next⟩ :: queue) (by simp) _ List.mem_cons_self
    obtain ⟨hinv, hnext⟩ := htask s le_rfl hp.session
    -- The task goes on from its answer; the others see a session that has grown.
    have hgrow := Session.le_serve s r
    refine ⟨hinv, fun q hq t ht => ?_, fun res hres s' hs' => ?_⟩
    · rcases List.mem_append.1 hq with hq | hq
      · exact hp.others hgrow (List.mem_append_left _ hq) t ht
      · rcases List.mem_cons.1 hq with rfl | hq
        · rcases List.mem_cons.1 ht with rfl | ht
          · exact hnext
          · exact hp.others hgrow (List.mem_append_right _ List.mem_cons_self) t
              (List.mem_cons_of_mem _ ht)
        · exact hp.others hgrow (List.mem_append_right _ (List.mem_cons_of_mem _ hq)) t ht
    · exact hp.results res hres s' (le_trans hgrow hs')
  | putDown before after queue i a s results =>
    -- Nothing is asked; the promise of the task becomes that of a result.
    have htask := hp.tasks (⟨i, .done a⟩ :: queue) (by simp) _ List.mem_cons_self
    refine ⟨hp.session, fun q hq t ht => ?_, fun res hres s' hs' hi => ?_⟩
    · rcases List.mem_append.1 hq with hq | hq
      · exact hp.tasks q (List.mem_append_left _ hq) t ht
      · rcases List.mem_cons.1 hq with rfl | hq
        · exact hp.tasks _ (List.mem_append_right _ List.mem_cons_self) t
            (List.mem_cons_of_mem _ ht)
        · exact hp.tasks q (List.mem_append_right _ (List.mem_cons_of_mem _ hq)) t ht
    · rcases List.mem_cons.1 hres with rfl | hres
      · exact htask s' hs' hi
      · exact hp.results res hres s' hs' hi

theorem Steps.sound {p p' : Pool α} (h : p.Steps p') (hp : p.Sound Inv Q) : p'.Sound Inv Q := by
  induction h with
  | refl => exact hp
  | tail _ hstep ih => exact hstep.sound ih

/-- A pool starts sound when each of its tasks does. -/
theorem sound_start {workers : List (List (Task α))} (hinv : Inv Session.start)
    (h : ∀ queue ∈ workers, ∀ t ∈ queue, t.rest.Meets Inv (Q t.index) Session.start) :
    (start workers).Sound Inv Q :=
  ⟨hinv, h, fun r hr => absurd hr (by simp [start])⟩

/-! ## §3. The end of all steps -/

theorem exists_step {p : Pool α} (h : ¬p.Done) : ∃ p', p.Step p' := by
  obtain ⟨workers, s, results⟩ := p
  simp only [Done, not_forall] at h
  obtain ⟨queue, hq, hne⟩ := h
  obtain ⟨before, after, rfl⟩ := List.append_of_mem hq
  obtain ⟨⟨i, x⟩, queue, rfl⟩ := List.exists_cons_of_ne_nil hne
  cases x with
  | done a => exact ⟨_, .putDown before after queue i a s results⟩
  | ask r next => exact ⟨_, .serve before after queue i r next s results⟩

/-- What is left of an action once its request was answered. -/
inductive Part : Action α → Action α → Prop
  | next (r : Request) (next : r.Answer → Action α) (a : r.Answer) : Part (next a) (.ask r next)

theorem wellFounded_part : WellFounded (Part : Action α → Action α → Prop) := by
  refine ⟨fun x => ?_⟩
  induction x with
  | done a => exact ⟨_, fun y hy => nomatch hy⟩
  | ask r next ih =>
    refine ⟨_, fun y hy => ?_⟩
    cases hy with
    | next _ _ a => exact ih a

/-- All that is left to do. -/
def left (p : Pool α) : Multiset (Action α) :=
  ↑(p.workers.flatten.map Task.rest)

/-- A step takes one action away, and puts at most a part of it in its place. -/
theorem Step.cutExpand {p p' : Pool α} (h : p.Step p') :
    Relation.CutExpand Part p'.left p.left := by
  cases h with
  | serve before after queue i r next s results =>
    -- The task is replaced by its part, and all others are left as they are.
    refine ⟨{next (s.serve r).1}, .ask r next, ?_, ?_⟩
    · intro y hy
      exact Multiset.mem_singleton.1 hy ▸ .next r next _
    · simp only [left, List.flatten_append, List.flatten_cons, List.map_append, List.map_cons,
        List.cons_append, ← Multiset.coe_add, ← Multiset.cons_coe, ← Multiset.singleton_add]
      ac_rfl
  | putDown before after queue i a s results =>
    refine ⟨0, .done a, fun y hy => absurd hy (Multiset.notMem_zero y), ?_⟩
    simp only [left, List.flatten_append, List.flatten_cons, List.map_append, List.map_cons,
      List.cons_append, ← Multiset.coe_add, ← Multiset.cons_coe, ← Multiset.singleton_add,
      add_zero]
    ac_rfl

theorem wellFounded_step : WellFounded fun p' p : Pool α => p.Step p' :=
  (InvImage.wf left wellFounded_part.cutExpand).mono fun _ _ => Step.cutExpand

/-- From everywhere some steps lead to the end. -/
theorem exists_done (p : Pool α) : ∃ p', p.Steps p' ∧ p'.Done := by
  induction p using wellFounded_step.induction with
  | _ p ih =>
    by_cases hdone : p.Done
    · exact ⟨p, .refl, hdone⟩
    · obtain ⟨p₁, hstep⟩ := exists_step hdone
      obtain ⟨p₂, hsteps, hdone₂⟩ := ih p₁ hstep
      exact ⟨p₂, .head hstep hsteps, hdone₂⟩

/-- In the end every place has its result, which keeps what was promised, and no other has. -/
theorem Sound.result? {p : Pool α} (h : p.Sound Inv Q) (hdone : p.Done) (i : Nat) :
    match p.result? i with
    | some a => i ∈ p.indices ∧ Q i a p.session
    | none => i ∉ p.indices := by
  -- With all queues empty the places are those of the results.
  have hempty : p.workers.flatten = [] := List.flatten_eq_nil_iff.2 hdone
  have hindices : p.indices = p.results.map (·.1) := by simp [indices, hempty]
  rw [hindices]
  cases hfind : p.results.find? (·.1 == i) with
  | some r =>
    have hmem := List.mem_of_find?_eq_some hfind
    have hi : r.1 = i := by simpa using List.find?_some hfind
    simp only [Pool.result?, hfind, Option.map_some]
    exact ⟨hi ▸ List.mem_map_of_mem hmem, hi ▸ h.results r hmem _ le_rfl h.session⟩
  | none =>
    simp only [Pool.result?, hfind, Option.map_none]
    intro hmem
    obtain ⟨r, hr, rfl⟩ := List.mem_map.1 hmem
    exact absurd (List.find?_eq_none.1 hfind r hr) (by simp)

end Pool

end EmmyStubs
