import Mathlib.Data.List.Dedup
import EmmyStubs.Proofs.Requests
import EmmyStubs.Proofs.Walks

/-! # Mapping with a stack of frames

    A worker has one stack of the types that it is mapping, which every mapping pushes on, looks
    through and pops from.  A mapping that comes back to a type on the stack marks the frames that
    are not to be kept.

    * **`Procedure`**: a computation that has such a stack.
    * **`Procedure.Always`**: what holds of the stack at every moment, whatever is answered.
    * **`mapWithin`**: the mapping of a type as such a procedure, which may go only so deep.
    * **`standsFor`**: it is the walk that `mapOn` is.
    * **`mapWithin_ends`**: going as deep as there are types it comes to an end, with the stack that
      it has begun with; no type was on it twice.
-/

namespace EmmyStubs

/-! ## §1. Procedures -/

/-- A type being mapped.  Where it is tainted, what is computed for it is not kept. -/
structure Frame where
  identity : Identity
  isTainted : Bool
  deriving DecidableEq, Repr

/-- A computation that asks a shared session, and has a stack of frames of its own, the innermost
    first.  It may be given up for going too deep. -/
inductive Procedure (α : Type) : Type where
  | done (a : α)
  | ask (r : Request) (next : r.Answer → Procedure α)
  | change (f : List Frame → List Frame) (next : List Frame → Procedure α)
  | tooDeep

namespace Procedure

variable {α β : Type}

def bind : Procedure α → (α → Procedure β) → Procedure β
  | done a, k => k a
  | ask r next, k => ask r fun a => (next a).bind k
  | change f next, k => change f fun frames => (next frames).bind k
  | tooDeep, _ => tooDeep

instance : Monad Procedure where
  pure := done
  bind := bind

/-- An action that does not use the stack. -/
def ofAction : Action α → Procedure α
  | .done a => done a
  | .ask r next => ask r fun a => ofAction (next a)

/-- The stack as it is. -/
def frames : Procedure (List Frame) :=
  change id done

def push (id : Identity) : Procedure Unit :=
  change (⟨id, false⟩ :: ·) fun _ => done ()

/-- Takes the innermost frame off the stack, and tells whether it was tainted. -/
def pop : Procedure Bool :=
  change List.tail fun before => done (before.head?.any (·.isTainted))

end Procedure

/-- Taints the frames at some height and all above; the outermost one is at height 0. -/
def Frame.taintFrom (height : Nat) : List Frame → List Frame
  | [] => []
  | f :: below =>
    ⟨f.identity, f.isTainted || decide (height ≤ below.length)⟩ :: taintFrom height below

namespace Procedure

/-- A type that is on the stack already stands for a value of unknown shape, and nothing is kept of
    what has been mapped since it was pushed. -/
def fallBack (stack : List Identity) (id : Identity) : Procedure TypeExpr := do
  change (Frame.taintFrom (stack.reverse.idxOf id)) fun _ => done ()
  ofAction (Action.report .debug .mapper
    ("Recursive mapping of " ++ id ++ "; using opaque token"))
  return ⟨Lua.userdata, false⟩

/-- Computes an expression with its type on the stack, and keeps it if the frame is not tainted. -/
def frame (id : Identity) (p : Procedure TypeExpr) : Procedure TypeExpr := do
  push id
  let t ← p
  if ← pop then return t else ofAction (Action.request (.mapping (.store id t)))

end Procedure

/-- Maps a type, with no more than `depth` mappings inside one another. -/
def mapWithin (g : Graph) (o : Options) : Nat → Identity → Procedure TypeExpr
  | 0, _ => .tooDeep
  | depth + 1, id => do
    match ← Procedure.ofAction (Action.request (.mapping (.get id))) with
    | some t => return t
    | none =>
      let frames ← Procedure.frames
      if id ∈ frames.map (·.identity) then Procedure.fallBack (frames.map (·.identity)) id
      else
        match g.find? id with
        | none => return ⟨Lua.userdata, false⟩
        | some d =>
          let around : Surroundings Procedure :=
            { graph := g
              options := o
              resolve := fun d => Procedure.ofAction (resolve g d)
              map := mapWithin g o depth }
          Procedure.frame id (around.compute d)

/-! ## §2. What holds of the stack -/

namespace Procedure

variable {α β : Type} {P : List Frame → Prop} {frames : List Frame}

/-- Whatever is answered, `P` holds of the stack at every moment; the procedure is never given up,
    and ends with a result and a stack that satisfy `Q`. -/
def Always (P : List Frame → Prop) (Q : α → List Frame → Prop) :
    Procedure α → List Frame → Prop
  | done a, frames => P frames ∧ Q a frames
  | ask _ next, frames => P frames ∧ ∀ a, (next a).Always P Q frames
  | change f next, frames => P frames ∧ (next frames).Always P Q (f frames)
  | tooDeep, _ => False

theorem Always.bind {Q : α → List Frame → Prop} {R : β → List Frame → Prop} {p : Procedure α}
    {k : α → Procedure β} (h : p.Always P Q frames)
    (hk : ∀ a left, Q a left → (k a).Always P R left) : (p >>= k).Always P R frames := by
  induction p generalizing frames with
  | done a => exact hk a frames h.2
  | ask r next ih => exact ⟨h.1, fun a => ih a (h.2 a)⟩
  | change f next ih => exact ⟨h.1, ih frames h.2⟩
  | tooDeep => exact h.elim

theorem Always.imp {P' : List Frame → Prop} {Q : α → List Frame → Prop} {p : Procedure α}
    (h : p.Always P Q frames) (hp : ∀ now, P now → P' now) : p.Always P' Q frames := by
  induction p generalizing frames with
  | done a => exact ⟨hp frames h.1, h.2⟩
  | ask r next ih => exact ⟨hp frames h.1, fun a => ih a (h.2 a)⟩
  | change f next ih => exact ⟨hp frames h.1, ih frames h.2⟩
  | tooDeep => exact h.elim

theorem always_ofAction {Q : α → List Frame → Prop} (h : P frames) (hq : ∀ a, Q a frames)
    (x : Action α) : (ofAction x).Always P Q frames := by
  induction x with
  | done a => exact ⟨h, hq a⟩
  | ask r next ih => exact ⟨h, ih⟩

end Procedure

/-- The stack of a mapping that began on `base`: no type is on it twice, and what has been added
    are types of the graph. -/
structure Stacked (g : Graph) (base stack : List Identity) : Prop where
  nodup : stack.Nodup
  bottom : base <:+ stack
  known : ∀ t ∈ stack, t ∈ base ∨ g.Knows t

namespace Stacked

variable {g : Graph} {base stack : List Identity} {id : Identity}

theorem self (h : base.Nodup) : Stacked g base base :=
  ⟨h, List.suffix_refl base, fun _ ht => .inl ht⟩

theorem push (h : Stacked g base stack) (hid : id ∉ stack) (hknown : g.Knows id) :
    Stacked g base (id :: stack) where
  nodup := List.nodup_cons.2 ⟨hid, h.nodup⟩
  bottom := h.bottom.trans (List.suffix_cons id stack)
  known := by
    intro t ht
    apply (List.mem_cons.1 ht).elim
    · intro heq
      exact .inr (heq ▸ hknown)
    · exact h.known t

/-- It is no longer than there are types to put on it. -/
theorem length_le (h : Stacked g base stack) :
    stack.length ≤ (base ++ g.descriptors.map (·.identity)).dedup.length := by
  apply (List.subperm_of_subset h.nodup _).length_le
  intro t ht
  rw [List.mem_dedup, List.mem_append]
  apply (h.known t ht).imp_right
  intro hknown
  obtain ⟨d, hd⟩ := Option.isSome_iff_exists.1 hknown
  exact List.mem_map.2 ⟨d, Graph.mem_of_find? hd, Graph.identity_of_find? hd⟩

end Stacked

@[simp] theorem Frame.map_identity_taintFrom (height : Nat) (frames : List Frame) :
    (Frame.taintFrom height frames).map (·.identity) = frames.map (·.identity) := by
  induction frames with
  | nil => rfl
  | cons f below ih => rw [taintFrom, List.map_cons, List.map_cons, ih]

namespace Procedure

variable {g : Graph} {α : Type} {base stack : List Identity} {id : Identity}

/-- The stack is in order at every moment, and is left as it was found. -/
def Returns (g : Graph) (base stack : List Identity) (p : Procedure α) : Prop :=
  ∀ frames : List Frame, frames.map (·.identity) = stack →
    p.Always (fun now => Stacked g base (now.map (·.identity)))
      (fun _ left => left.map (·.identity) = stack) frames

/-- That is a trait of procedures. -/
def returning (h : Stacked g base stack) : Trait Procedure where
  Of := Returns g base stack
  pure := by
    rintro α a frames rfl
    exact ⟨h, rfl⟩
  bind := by
    intro α β p k hp hk frames hframes
    apply (hp frames hframes).bind
    intro a left hleft
    exact hk a left hleft

theorem returns_ofAction (h : Stacked g base stack) (x : Action α) :
    (ofAction x).Returns g base stack := by
  rintro frames rfl
  apply always_ofAction
  · exact h
  · intro _
    rfl

theorem returns_fallBack (h : Stacked g base stack) : (fallBack stack id).Returns g base stack := by
  apply (returning h).bind
  · rintro frames rfl
    simp only [Always, Frame.map_identity_taintFrom]
    exact ⟨h, h, trivial⟩
  · intro _
    exact (returning h).map (returns_ofAction h _) _

/-- What is pushed is popped. -/
theorem returns_frame (h : Stacked g base stack) (hid : id ∉ stack) (hknown : g.Knows id)
    {p : Procedure TypeExpr} (hp : p.Returns g base (id :: stack)) :
    (frame id p).Returns g base stack := by
  rintro frames rfl
  refine ⟨h, (hp _ rfl).bind ?_⟩
  -- Tainting changes no identity, so the frame on top is the one that was pushed.
  intro t left hleft
  have hpopped : left.tail.map (·.identity) = frames.map (·.identity) := by
    rw [List.map_tail, hleft]
    rfl
  have hbefore : Stacked g base (left.map (·.identity)) := by
    rw [hleft]
    exact h.push hid hknown
  refine ⟨hbefore, ?_⟩
  show Always _ _ (if left.head?.any (·.isTainted) = true then done t else _) _
  cases left.head?.any (·.isTainted) with
  | true => exact (returning h).pure t _ hpopped
  | false => exact returns_ofAction h _ _ hpopped

end Procedure

/-- As long as there is no type to push that is not on the stack, a mapping goes no deeper. -/
theorem mapWithin_returns {g : Graph} {o : Options} {depth : Nat} {base stack : List Identity}
    (h : Stacked g base stack) (hdepth : g.unseen stack < depth) (id : Identity) :
    (mapWithin g o depth id).Returns g base stack := by
  -- Each mapping that is one deeper has one more type on the stack, so fewer are left.
  induction depth generalizing stack id with
  | zero => omega
  | succ depth ih =>
    apply (Procedure.returning h).bind (Procedure.returns_ofAction h _)
    intro kept
    cases kept with
    | some t => exact (Procedure.returning h).pure t
    | none =>
      rintro frames rfl
      refine ⟨h, ?_⟩
      dsimp only [Procedure.bind, id_eq]
      by_cases hid : id ∈ frames.map (·.identity)
      · rw [if_pos hid]
        exact Procedure.returns_fallBack h frames rfl
      · rw [if_neg hid]
        cases hd : g.find? id with
        | none => exact (Procedure.returning h).pure _ frames rfl
        | some d =>
          have hknown : g.Knows id := Option.isSome_iff_exists.2 ⟨d, hd⟩
          have hpushed := h.push hid hknown
          have hunseen := Graph.unseen_cons_lt hd hid
          apply Procedure.returns_frame h hid hknown _ frames rfl
          apply (Procedure.returning hpushed).compute
          · intro id'
            exact ih hpushed (by omega) id'
          · exact Procedure.returns_ofAction hpushed _

/-! ## §3. Frames and fall-backs -/

/-- Whatever is answered, the result satisfies `P`. -/
def Action.Ends {α : Type} (P : α → Prop) : Action α → Prop
  | .done a => P a
  | .ask _ next => ∀ a, (next a).Ends P

theorem Action.ends_true {α : Type} (x : Action α) : x.Ends fun _ => True := by
  induction x with
  | done a => trivial
  | ask r next ih => exact ih

namespace Action.Ends

variable {α β : Type} {P : α → Prop} {Q : β → Prop} {x : Action α} {f h : α → Action β}

theorem bind (hx : x.Ends P) (hf : ∀ a, P a → (f a).Ends Q) : (x >>= f).Ends Q := by
  induction x with
  | done a => exact hf a hx
  | ask r next ih => exact fun a => ih a (hx a)

/-- It is enough for two actions to go on alike from such results. -/
theorem bind_congr (hx : x.Ends P) (hf : ∀ a, P a → f a = h a) : x >>= f = x >>= h := by
  induction x with
  | done a => exact hf a hx
  | ask r next ih =>
    rw [ask_bind, ask_bind]
    congr 1
    funext a
    exact ih a (hx a)

end Action.Ends

namespace Frame

/-- No frame is as high as the stack. -/
theorem taintFrom_of_length_le {height : Nat} {frames : List Frame}
    (h : frames.length ≤ height) : taintFrom height frames = frames := by
  induction frames with
  | nil => rfl
  | cons f below ih =>
    rw [List.length_cons] at h
    have hbelow : ¬height ≤ below.length := by omega
    rw [taintFrom, ih (by omega)]
    simp [hbelow]

theorem length_taintFrom (height : Nat) (frames : List Frame) :
    (taintFrom height frames).length = frames.length := by
  have hmap := congrArg List.length (map_identity_taintFrom height frames)
  rwa [List.length_map, List.length_map] at hmap

theorem taintFrom_taintFrom (height height' : Nat) (frames : List Frame) :
    taintFrom height' (taintFrom height frames) = taintFrom (min height height') frames := by
  induction frames with
  | nil => rfl
  | cons f below ih =>
    have hlower : (height ≤ below.length ∨ height' ≤ below.length) ↔
        min height height' ≤ below.length := by omega
    rw [taintFrom, taintFrom, taintFrom, ih, length_taintFrom, Bool.or_assoc, ← Bool.decide_or,
      decide_eq_decide.2 hlower]

end Frame

namespace Fallback

/-- A fall-back is on a frame of a stack of some height. -/
def Within (height : Nat) (low : Fallback) : Prop :=
  ∀ h ∈ low, h < height

theorem Within.lower {height : Nat} {low low' : Fallback} (h : low.Within height)
    (h' : low'.Within height) : (low.lower low').Within height := by
  intro f hf
  apply (eq_or_eq_of_lower hf).elim
  · exact h f
  · exact h' f

/-- Taints the frames that a fall-back spoils. -/
def taint : Fallback → List Frame → List Frame
  | none, frames => frames
  | some height, frames => Frame.taintFrom height frames

theorem map_identity_taint (low : Fallback) (frames : List Frame) :
    (low.taint frames).map (·.identity) = frames.map (·.identity) := by
  cases low with
  | none => rfl
  | some height => exact Frame.map_identity_taintFrom height frames

/-- Two fall-backs spoil what the lower one spoils. -/
theorem taint_lower (low low' : Fallback) (frames : List Frame) :
    (low.lower low').taint frames = low'.taint (low.taint frames) := by
  cases low with
  | none => rfl
  | some height =>
    cases low' with
    | none => rfl
    | some height' => exact (Frame.taintFrom_taintFrom height height' frames).symm

end Fallback

namespace Walk

variable {α β : Type}

/-- A walk with a stack of frames, on which it taints those that its fall-back spoils. -/
def onStack (w : Walk α) (frames : List Frame) : Action (Option (α × List Frame)) :=
  Action.bind w fun r => .done (some (r.1, r.2.taint frames))

theorem onStack_bind (w : Walk α) (f : α → Walk β) (frames : List Frame) :
    (w >>= f).onStack frames = Action.bind w fun r => (f r.1).onStack (r.2.taint frames) := by
  apply (Action.bind_assoc (α := α × Fallback) w _ _).trans
  show Action.bind w _ = Action.bind w _
  congr 1
  funext r
  apply (Action.bind_assoc (α := β × Fallback) (f r.1) _ _).trans
  show Action.bind (f r.1) _ = Action.bind (f r.1) _
  congr 1
  funext r'
  show Action.done (some (r'.1, (r.2.lower r'.2).taint frames)) = _
  rw [Fallback.taint_lower]

end Walk

namespace Procedure

variable {α β : Type}

/-- The requests of a procedure that has a stack of frames, and what it leaves of the stack. -/
def act : Procedure α → List Frame → Action (Option (α × List Frame))
  | done a, frames => .done (some (a, frames))
  | ask r next, frames => .ask r fun a => (next a).act frames
  | change f next, frames => (next frames).act (f frames)
  | tooDeep, _ => .done none

theorem act_bind (p : Procedure α) (k : α → Procedure β) (frames : List Frame) :
    (p >>= k).act frames = Action.bind (p.act frames) fun
      | some (a, left) => (k a).act left
      | none => .done none := by
  induction p generalizing frames with
  | done a => rfl
  | ask r next ih =>
    show Action.ask r _ = Action.ask r _
    congr 1
    funext a
    exact ih a frames
  | change f next ih => exact ih frames (f frames)
  | tooDeep => rfl

theorem act_ofAction (x : Action α) (frames : List Frame) :
    (ofAction x).act frames = Action.bind x fun a => .done (some (a, frames)) := by
  induction x with
  | done a => rfl
  | ask r next ih =>
    show Action.ask r _ = Action.ask r _
    congr 1
    funext a
    exact ih a

/-- A procedure stands for a walk on a stack: it has the same requests and the same result, and the
    frames that the walk falls back on are tainted. -/
def StandsFor (stack : List Identity) (w : Walk α) (p : Procedure α) : Prop :=
  Action.Ends (fun r => r.2.Within stack.length) w ∧
    ∀ frames : List Frame, frames.map (·.identity) = stack → p.act frames = w.onStack frames

/-- Walks and the procedures that stand for them are alike. -/
def standsFor (stack : List Identity) : Likeness Walk Procedure where
  Of := StandsFor stack
  pure := by
    intro α a
    apply And.intro
    · intro f hf
      cases hf
    · intro frames _
      rfl
  bind := by
    intro α β w p f k hw hf
    apply And.intro
    · apply hw.1.bind
      intro r hr
      apply (hf r.1).1.bind
      intro r' hr'
      exact hr.lower hr'
    · rintro frames rfl
      rw [act_bind, hw.2 frames rfl, Walk.onStack_bind]
      apply (Action.bind_assoc (α := α × Fallback) w _ _).trans
      show Action.bind w _ = Action.bind w _
      congr 1
      funext r
      exact (hf r.1).2 (r.2.taint frames) (Fallback.map_identity_taint r.2 frames)

theorem standsFor_ofAction {stack : List Identity} (x : Action α) :
    StandsFor stack (Walk.ofAction x) (ofAction x) := by
  apply And.intro
  · apply x.ends_true.bind
    intro a _ f hf
    cases hf
  · intro frames _
    rw [act_ofAction]
    exact (Action.bind_assoc x (fun a => .done (a, none)) fun r : α × Fallback =>
      .done (some (r.1, r.2.taint frames))).symm

theorem standsFor_fallBack {stack : List Identity} {id : Identity} (hid : id ∈ stack) :
    StandsFor stack
      (do
        Walk.ofAction (Action.report .debug .mapper
          ("Recursive mapping of " ++ id ++ "; using opaque token"))
        Walk.fallBack (stack.reverse.idxOf id) ⟨Lua.userdata, false⟩)
      (fallBack stack id) := by
  apply And.intro
  · intro _ f hf
    obtain rfl : stack.reverse.idxOf id = f := Option.some.inj hf
    rw [← List.length_reverse]
    exact List.idxOf_lt_length_iff.2 (List.mem_reverse.2 hid)
  · intro frames _
    rfl

/-- The frame is tainted where the walk falls back on it or on one below. -/
theorem standsFor_frame {stack : List Identity} {id : Identity} {w : Walk TypeExpr}
    {p : Procedure TypeExpr} (h : StandsFor (id :: stack) w p) :
    StandsFor stack (Walk.frame stack.length id w) (frame id p) := by
  apply And.intro
  · apply h.1.bind
    rintro ⟨t, low⟩ hlow
    cases low with
    | none =>
      intro _ f hf
      cases hf
    | some height =>
      intro f hf
      by_cases hbelow : height < stack.length
      · simp only [if_pos hbelow, Option.mem_def, Option.some.injEq] at hf
        omega
      · simp [if_neg hbelow] at hf
  · rintro frames rfl
    have hact : (frame id p).act frames = Action.bind (p.act (⟨id, false⟩ :: frames)) _ :=
      act_bind p _ (⟨id, false⟩ :: frames)
    rw [hact, h.2 (⟨id, false⟩ :: frames) rfl]
    apply (Action.bind_assoc (α := TypeExpr × Fallback) w _ _).trans
    apply Eq.trans _ (Action.bind_assoc (α := TypeExpr × Fallback) w _ _).symm
    apply h.1.bind_congr
    rintro ⟨t, low⟩ hlow
    cases low with
    | none => rfl
    | some height =>
      have hheight : height ≤ frames.length := by
        have hlt := hlow height rfl
        simp at hlt
        omega
      have htainted : (false || decide (height ≤ frames.length)) = true := by simp [hheight]
      show Procedure.act
          (if (false || decide (height ≤ frames.length)) = true then Procedure.done t else _)
          (Frame.taintFrom height frames)
        = Action.done (some (t, Fallback.taint
          (if height < (frames.map (·.identity)).length then some height else none) frames))
      rw [if_pos htainted, List.length_map]
      by_cases hbelow : height < frames.length
      · rw [if_pos hbelow]
        rfl
      · rw [if_neg hbelow, Frame.taintFrom_of_length_le (by omega)]
        rfl

/-- A procedure may look at the stack that it stands on. -/
theorem standsFor_frames {stack : List Identity} {w : Walk α} {k : List Frame → Procedure α}
    (h : ∀ now : List Frame, now.map (·.identity) = stack → StandsFor stack w (k now)) :
    StandsFor stack w (frames >>= k) := by
  apply And.intro
  · exact (h (stack.map fun t => ⟨t, false⟩) (by simp [Function.comp_def])).1
  · intro now hnow
    exact (h now hnow).2 now hnow

end Procedure

/-- The mapping of a type with a stack of frames is the walk of `mapOn`. -/
theorem mapWithin_standsFor {g : Graph} {o : Options} {depth : Nat} {stack : List Identity}
    (hdepth : g.unseen stack < depth) (id : Identity) :
    Procedure.StandsFor stack (mapOn g o stack id) (mapWithin g o depth id) := by
  induction depth generalizing stack id with
  | zero => omega
  | succ depth ih =>
    rw [mapOn, mapWithin]
    apply (Procedure.standsFor stack).bind (Procedure.standsFor_ofAction _)
    intro kept
    cases kept with
    | some t => exact (Procedure.standsFor stack).pure t
    | none =>
      apply Procedure.standsFor_frames
      rintro now rfl
      dsimp only
      by_cases hid : id ∈ now.map (·.identity)
      · rw [dif_pos hid, if_pos hid]
        exact Procedure.standsFor_fallBack hid
      · rw [dif_neg hid, if_neg hid]
        split
        · next hd =>
          rw [hd]
          exact (Procedure.standsFor _).pure _
        · next d hd =>
          rw [hd]
          apply Procedure.standsFor_frame
          apply (Procedure.standsFor _).compute
          · intro id'
            have hunseen := Graph.unseen_cons_lt hd hid
            exact ih (by omega) id'
          · exact Procedure.standsFor_ofAction _

/-! ## §4. All mappings -/

/-- Mapping a type on any stack without repetitions, as deep as there are types of the graph that
    are not on it:
    - whatever the session answers, at every moment no type is on the stack twice, the stack is on
      top of the one that the mapping has begun with, and is no higher than there are types; the
      mapping is not given up, and leaves the types that it has found;
    - its requests and its result are those of `mapOn`, and the frames that this one falls back on
      are tainted;
    - on an empty stack that is `mapType`, and the stack is left empty. -/
theorem mapWithin_ends (g : Graph) (o : Options) (id : Identity) {frames : List Frame}
    (hnodup : (frames.map (·.identity)).Nodup) {depth : Nat}
    (hdepth : g.unseen (frames.map (·.identity)) < depth) :
    let stack := frames.map (·.identity)
    (mapWithin g o depth id).Always
      (fun now => (now.map (·.identity)).Nodup ∧ stack <:+ now.map (·.identity) ∧
        now.length ≤ (stack ++ g.descriptors.map (·.identity)).dedup.length)
      (fun _ left => left.map (·.identity) = stack) frames ∧
    (mapWithin g o depth id).act frames = (mapOn g o stack id).onStack frames ∧
    (frames = [] → (mapWithin g o depth id).act frames =
      mapType g o id >>= fun t => .done (some (t, []))) := by
  intro stack
  have hacts := (mapWithin_standsFor (o := o) hdepth id).2 frames rfl
  apply And.intro
  · apply (mapWithin_returns (Stacked.self hnodup) hdepth id frames rfl).imp
    intro now hnow
    have hlength := hnow.length_le
    rw [List.length_map] at hlength
    exact ⟨hnow.nodup, hnow.bottom, hlength⟩
  apply And.intro hacts
  rintro rfl
  rw [hacts]
  apply Eq.trans _ (Action.bind_assoc (α := TypeExpr × Fallback) (mapOn g o [] id) _ _).symm
  show Action.bind (mapOn g o [] id) _ = Action.bind (mapOn g o [] id) _
  congr 1
  funext r
  cases r.2 with
  | none => rfl
  | some height => rfl

/-- Two arrays, each of which has the other one as its element. -/
def loopGraph : Graph :=
  ⟨[{ identity := "L.Inner", name := "Inner", kind := .array, element := some "L.Outer" },
    { identity := "L.Outer", name := "Outer", kind := .array, element := some "L.Inner" }]⟩

/-- The outer array is being mapped when the inner one is, and comes out tainted. -/
theorem loopGraph_ends :
    let frames : List Frame := [⟨"L.Outer", false⟩]
    (frames.map (·.identity)).Nodup ∧ loopGraph.unseen (frames.map (·.identity)) < 2 ∧
      (mapWithin loopGraph {} 2 "L.Inner").Always
        (fun now => (now.map (·.identity)).Nodup ∧ ["L.Outer"] <:+ now.map (·.identity) ∧
          now.length ≤ 2) (fun _ left => left.map (·.identity) = ["L.Outer"]) frames ∧
      (((mapWithin loopGraph {} 2 "L.Inner").act frames).run .start).1
        = some (⟨"userdata[]", false⟩, [⟨"L.Outer", true⟩]) := by
  intro frames
  have hnodup : (frames.map (·.identity)).Nodup := by decide
  have hdepth : loopGraph.unseen (frames.map (·.identity)) < 2 := by decide
  have htypes : ((frames.map (·.identity)) ++ loopGraph.descriptors.map (·.identity)).dedup.length
      = 2 := by decide
  obtain ⟨halways, -, -⟩ := mapWithin_ends loopGraph {} "L.Inner" hnodup hdepth
  rw [htypes] at halways
  exact ⟨hnodup, hdepth, halways, by decide +kernel⟩

end EmmyStubs
