import EmmyStubs.Proofs.Sharing
import EmmyStubs.Proofs.Traits

/-! # What translations ask for

    An action can touch a session only by its requests, so what it never asks for it never
    changes.

    * **`Action.Asks`**: whatever the answers are, all requests are of one kind.
    * **`Request.Translates`**: the requests of a translation.  Names are stored as the graph
      gives them, and messages come from some parts of the program only.
    * **`mapOn_asks`**: mapping a type reports nothing but what the mapper has to say.
-/

namespace EmmyStubs

variable {α β : Type}

/-! ## §1. Requests of one kind -/

/-- Whatever the answers are, all requests satisfy `P`. -/
def Action.Asks (P : Request → Prop) : Action α → Prop
  | .done _ => True
  | .ask r next => P r ∧ ∀ a, (next a).Asks P

namespace Action.Asks

variable {P : Request → Prop} {x : Action α} {f : α → Action β}

theorem request {r : Request} (h : P r) : (Action.request r).Asks P :=
  ⟨h, fun _ => trivial⟩

theorem bind (hx : x.Asks P) (hf : ∀ a, (f a).Asks P) : (x >>= f).Asks P := by
  induction x with
  | done a => exact hf a
  | ask r next ih => exact ⟨hx.1, fun a => ih a (hx.2 a)⟩

/-- What all these requests keep is kept, whatever the others do. -/
theorem meets (h : x.Asks P) {Inv : Session → Prop}
    (hserve : ∀ r s, P r → Inv s → Inv (s.serve r).2) (s : Session) :
    x.Meets Inv (fun _ _ => True) s := by
  induction x generalizing s with
  | done a => exact fun _ _ _ => trivial
  | ask r next ih => exact fun s' _ hs' => ⟨hserve r s' h.1 hs', ih _ (h.2 _) _⟩

/-- It is kept by a run. -/
theorem run (h : x.Asks P) (Inv : Session → Prop)
    (hserve : ∀ r s, P r → Inv s → Inv (s.serve r).2) {s : Session} (hs : Inv s) :
    Inv (x.run s).2 :=
  ((h.meets hserve s).run hs).1

/-- Asking for one kind of requests is a trait of actions. -/
def trait (P : Request → Prop) : Trait Action where
  Of := Action.Asks P
  pure := fun _ => trivial
  bind := bind

/-- And of actions that map types. -/
def walkTrait (P : Request → Prop) : Trait Walk where
  Of x := Action.Asks P x
  pure := fun _ => trivial
  bind := fun hx hf => bind hx fun a => bind (hf a.1) fun _ => trivial

end Action.Asks

/-! ## §2. Translations -/

/-- Names are stored as the graph gives them, and only `sources` report. -/
def Request.Translates (g : Graph) (sources : Log.Source → Prop) : Request → Prop
  | .name (.store key value) => ∃ d, g.Has d ∧ key = d.identity ∧ value = g.qualifiedName d
  | .report e => sources e.source
  | _ => True

section

variable {g : Graph} {o : Options} {sources : Log.Source → Prop}

theorem resolve_asks {d : Descriptor} (hd : g.Has d) :
    (resolve g d).Asks (Request.Translates g sources) := by
  refine Action.Asks.bind (Action.Asks.request trivial) fun name => ?_
  cases name with
  | some name => exact trivial
  | none =>
    refine Action.Asks.bind (Action.Asks.request trivial) fun _ => ?_
    exact Action.Asks.request ⟨d, hd, rfl, rfl⟩

/-- Mapping a type stores no names but those of its graph, and only the mapper reports. -/
theorem mapOn_asks (hmapper : sources .mapper) (stack : List Identity) (id : Identity) :
    Action.Asks (Request.Translates g sources) (mapOn g o stack id) := by
  -- By induction on the number of types of the graph that are not on the stack.
  induction hsize : g.unseen stack using Nat.strongRecOn generalizing stack id with
  | ind n ih =>
  have hwalk : ∀ {α : Type} {x : Action α}, x.Asks (Request.Translates g sources) →
      Action.Asks (Request.Translates g sources) (Walk.ofAction x) :=
    fun hx => Action.Asks.bind hx fun _ => trivial
  let T := Action.Asks.walkTrait (Request.Translates g sources)
  rw [mapOn]
  refine T.bind (hwalk (Action.Asks.request (r := .mapping (.get id)) trivial)) fun kept => ?_
  cases kept with
  | some t => exact T.pure t
  | none =>
    dsimp only
    split
    · exact T.bind (hwalk (Action.Asks.request hmapper)) fun _ => trivial
    · next hn =>
      split
      · exact T.pure _
      · next d hd =>
        have hcompute := T.compute (e :=
            { graph := g
              options := o
              resolve := fun d => Walk.ofAction (resolve g d)
              map := fun id' => mapOn g o (id :: stack) id' })
          (fun id' => ih _ (hsize ▸ Graph.unseen_cons_lt hd hn) _ id' rfl)
          (hwalk (resolve_asks (Graph.has_of_find? hd)))
        -- The frame keeps what was computed, or passes it on.
        refine Action.Asks.bind hcompute fun result => ?_
        obtain ⟨t, low⟩ := result
        cases low with
        | none => exact hwalk (Action.Asks.request trivial)
        | some f => exact trivial

theorem mapType_asks (hmapper : sources .mapper) (id : Identity) :
    (mapType g o id).Asks (Request.Translates g sources) :=
  Action.Asks.bind (mapOn_asks hmapper [] id) fun _ => trivial

theorem typeText_asks (hmapper : sources .mapper) (asPart : Bool) (id : Identity) :
    (typeText g o asPart id).Asks (Request.Translates g sources) :=
  Action.Asks.bind (mapType_asks hmapper id) fun _ => trivial

/-- A translation may report anything. -/
theorem Action.Asks.serves :
    (Action.Asks.trait (Request.Translates g fun _ => True)).Serves g o where
  resolve := resolve_asks
  typeText := fun _ => typeText_asks trivial _ _
  report := fun _ _ _ => Action.Asks.request trivial

end

end EmmyStubs
