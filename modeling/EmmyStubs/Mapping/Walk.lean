import EmmyStubs.Mapping.Compute

/-! # Mapping types

    A type is mapped with the stack of the types being mapped around it.  A type that is on
    the stack already is a value of unknown shape; the mapping falls back on the frame that
    the type has there.  What was computed with such a fall-back, on its own frame or on one
    below it, depends on where the mapping began and is not kept; everything else is kept in
    the cache of mappings. -/

namespace EmmyStubs

/-! ## §1. Walks -/

/-- The lowest frame of the stack that a mapping fell back on, counted from the bottom. -/
abbrev Fallback := Option Nat

/-- The lower one of two frames. -/
def Fallback.lower : Fallback → Fallback → Fallback
  | none, b => b
  | a, none => a
  | some a, some b => some (min a b)

/-- An action that maps types, with the lowest frame it fell back on. -/
def Walk (α : Type) : Type :=
  Action (α × Fallback)

namespace Walk

variable {α β : Type}

instance : Monad Walk where
  pure a := Action.done (a, none)
  bind x f := Action.bind x fun (a, low) => Action.bind (f a) fun (b, low') =>
    Action.done (b, low.lower low')

/-- An action that maps nothing. -/
def ofAction (x : Action α) : Walk α :=
  Action.bind x fun a => Action.done (a, none)

/-- A result that stands for falling back on a frame. -/
def fallBack (frame : Nat) (a : α) : Walk α :=
  Action.done (a, some frame)

/-- The result of a frame at height `depth`.  Without a fall-back it is kept; a fall-back on
    this very frame does not concern the frames below it. -/
def frame (depth : Nat) (id : Identity) (x : Walk TypeExpr) : Walk TypeExpr :=
  Action.bind x fun (t, low) =>
    match low with
    | none => ofAction (Action.request (.mapping (.store id t)))
    | some f => Action.done (t, if f < depth then some f else none)

end Walk

/-! ## §2. The mapper -/

/-- Maps a type, `stack` holding the types being mapped around it, the innermost first. -/
def mapOn (g : Graph) (o : Options) (stack : List Identity) (id : Identity) : Walk TypeExpr := do
  match ← Walk.ofAction (Action.request (.mapping (.get id))) with
  | some t => return t
  | none =>
    if _hn : id ∈ stack then
      Walk.ofAction (Action.report .debug .mapper
        ("Recursive mapping of " ++ id ++ "; using opaque token"))
      Walk.fallBack (stack.reverse.idxOf id) ⟨Lua.userdata, false⟩
    else
      match _hd : g.find? id with
      | none => return ⟨Lua.userdata, false⟩
      | some d =>
        let around : Surroundings Walk :=
          { graph := g
            options := o
            resolve := fun d => Walk.ofAction (resolve g d)
            map := fun id' => mapOn g o (id :: stack) id' }
        Walk.frame stack.length id (around.compute d)
termination_by g.unseen stack
decreasing_by exact Graph.unseen_cons_lt _hd _hn

/-- Maps a type. -/
def mapType (g : Graph) (o : Options) (id : Identity) : Action TypeExpr :=
  Action.bind (mapOn g o [] id) fun (t, _) => Action.done t

/-- The text of a type, as a part of a larger expression or on its own. -/
def typeText (g : Graph) (o : Options) (asPart : Bool) (id : Identity) : Action String := do
  let t ← mapType g o id
  return t.render asPart

end EmmyStubs
