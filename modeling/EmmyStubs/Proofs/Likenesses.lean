import EmmyStubs.Mapping.Compute

/-! # The expression of a type in two monads

    How the expression of a type is made does not depend on the monad that it is made in.

    * **`Likeness`**: a relation between computations of two monads that is kept when they are put
      behind one another.
    * **`Likeness.compute`**: the computations of the expression of a type are alike in any
      surroundings that name it alike and map others alike.
-/

namespace EmmyStubs

variable {α β : Type}

/-- A relation between computations of the same results that is kept when they are put behind one
    another. -/
structure Likeness (m n : Type → Type) [Monad m] [Monad n] where
  Of : {α : Type} → m α → n α → Prop
  pure : ∀ {α : Type} (a : α), Of (Pure.pure a) (Pure.pure a)
  bind : ∀ {α β : Type} {x : m α} {y : n α} {f : α → m β} {h : α → n β}, Of x y →
    (∀ a, Of (f a) (h a)) → Of (x >>= f) (y >>= h)

namespace Likeness

variable {m n : Type → Type} [Monad m] [Monad n] (L : Likeness m n)

/-- Like computations, and then a function of their result. -/
theorem map {x : m α} {y : n α} (h : L.Of x y) (k : α → β) :
    L.Of (x >>= fun a => Pure.pure (k a)) (y >>= fun a => Pure.pure (k a)) :=
  L.bind h fun a => L.pure (k a)

/-! ## §1. Signatures -/

theorem stubParameters {g : Graph} {text : Identity → m String} {text' : Identity → n String}
    {ps : List Descriptor.Parameter}
    (h : ∀ id ∈ ps.map g.annotatedType, L.Of (text id) (text' id)) :
    L.Of (EmmyStubs.stubParameters g text ps) (EmmyStubs.stubParameters g text' ps) := by
  induction ps with
  | nil => exact L.pure _
  | cons p ps ih =>
    have hp := h (g.annotatedType p) (by simp)
    have hps := ih fun id hid => h id (List.mem_cons_of_mem _ hid)
    apply L.bind hp
    intro type
    exact L.map hps _

theorem returnText {text : Identity → m String} {text' : Identity → n String}
    {type : Option Identity} (h : ∀ id ∈ type.toList, L.Of (text id) (text' id)) :
    L.Of (EmmyStubs.returnText text type) (EmmyStubs.returnText text' type) := by
  cases type with
  | none => exact L.pure _
  | some id => exact h id (by simp)

/-! ## §2. Expressions -/

/-- Surroundings of the same graph and options in another monad. -/
abbrev moved (e : Surroundings m) (resolve : Descriptor → n String)
    (map : Identity → n TypeExpr) : Surroundings n :=
  ⟨e.graph, e.options, resolve, map⟩

variable {e : Surroundings m} {resolve' : Descriptor → n String} {map' : Identity → n TypeExpr}
  (hmap : ∀ id, L.Of (e.map id) (map' id))
include hmap

theorem text (asPart : Bool) (id : Identity) :
    L.Of (e.text asPart id) ((moved e resolve' map').text asPart id) :=
  L.map (hmap id) _

theorem delegate (d : Descriptor) :
    L.Of (e.delegate d) ((moved e resolve' map').delegate d) := by
  unfold Surroundings.delegate
  cases d.invoke with
  | none => exact L.pure _
  | some i =>
    apply L.bind (L.stubParameters fun id _ => L.text hmap true id)
    intro ps
    exact L.map (L.returnText fun id _ => L.text hmap false id) _

theorem indexers (ps : List Descriptor.Property) :
    L.Of (e.indexers ps) ((moved e resolve' map').indexers ps) := by
  induction ps with
  | nil => exact L.pure _
  | cons p ps ih =>
    unfold Surroundings.indexers
    cases p.isPublicIndexer with
    | false => exact ih
    | true =>
      cases p.indexParameters with
      | nil => exact ih
      | cons i is =>
        apply L.bind (L.text hmap false i.type)
        intro key
        apply L.bind (L.text hmap false p.type)
        intro value
        exact L.map ih _

theorem iteration (shapes : List Identity) (d : Descriptor) :
    L.Of (e.iteration shapes d) ((moved e resolve' map').iteration shapes d) := by
  unfold Surroundings.iteration
  have hgraph : (moved e resolve' map').graph = e.graph := rfl
  rw [hgraph]
  cases (e.graph.implementation? shapes d).bind (·.genericArguments.head?) with
  | none => exact L.pure _
  | some argument => exact L.map (L.text hmap false argument) _

theorem composite (d : Descriptor) :
    L.Of (e.composite d) ((moved e resolve' map').composite d) := by
  apply L.bind (L.indexers hmap _)
  intro tables
  apply L.bind (L.iteration hmap _ d)
  intro items
  exact L.map (L.iteration hmap _ d) _

variable {d : Descriptor} (hname : L.Of (e.resolve d) (resolve' d))
include hname

theorem named : L.Of (e.named d) ((moved e resolve' map').named d) := by
  apply L.bind hname
  intro name
  by_cases huserdata : name = Lua.userdata
  · rw [if_pos huserdata, if_pos huserdata]
    exact L.composite hmap d
  · rw [if_neg huserdata, if_neg huserdata]
    exact L.pure _

theorem instantiation : L.Of (e.instantiation d) ((moved e resolve' map').instantiation d) := by
  have hnamed := L.named hmap hname
  unfold Surroundings.instantiation
  cases d.genericArguments with
  | nil => exact hnamed
  | cons a rest =>
    show L.Of (if e.options.isList d = true then _ else _)
      (if e.options.isList d = true then _ else _)
    cases e.options.isList d with
    | true => exact L.map (L.text hmap true a) _
    | false =>
      cases rest with
      | nil => exact hnamed
      | cons b bs =>
        show L.Of (if e.options.isDictionary d = true then _ else _)
          (if e.options.isDictionary d = true then _ else _)
        cases e.options.isDictionary d with
        | false => exact hnamed
        | true =>
          apply L.bind (L.text hmap false a)
          intro key
          exact L.map (L.text hmap false b) _

/-- The kinds without a rule of their own: a delegate, a nullable type, or a named one. -/
theorem other : L.Of
    (if d.kind = .delegate ∧ d.identity ∉ Shape.delegateRoots then e.delegate d
      else match d.nullableUnderlying? with
        | some u => do
          let t ← e.text true u
          Pure.pure ⟨t ++ "|nil", true⟩
        | none => e.instantiation d)
    (if d.kind = .delegate ∧ d.identity ∉ Shape.delegateRoots then
        (moved e resolve' map').delegate d
      else match d.nullableUnderlying? with
        | some u => do
          let t ← (moved e resolve' map').text true u
          Pure.pure ⟨t ++ "|nil", true⟩
        | none => (moved e resolve' map').instantiation d) := by
  by_cases hdelegate : d.kind = .delegate ∧ d.identity ∉ Shape.delegateRoots
  · rw [if_pos hdelegate, if_pos hdelegate]
    exact L.delegate hmap d
  · rw [if_neg hdelegate, if_neg hdelegate]
    cases d.nullableUnderlying? with
    | some u => exact L.map (L.text hmap true u) _
    | none => exact L.instantiation hmap hname

/-- The expression of a type is made by naming it and mapping others. -/
theorem compute : L.Of (e.compute d) ((moved e resolve' map').compute d) := by
  have hother := L.other hmap hname
  unfold Surroundings.compute
  by_cases hvoid : d.kind = .void
  · rw [if_pos hvoid, if_pos hvoid]
    exact L.pure _
  rw [if_neg hvoid, if_neg hvoid]
  cases Lua.primitive? d.identity with
  | some token => exact L.pure _
  | none =>
    show L.Of (if d.isGenericMethodParameter = true then _ else _)
      (if d.isGenericMethodParameter = true then _ else _)
    cases d.isGenericMethodParameter with
    | true => exact L.pure _
    | false =>
      cases hkind : d.kind
      case enum => exact L.map hname _
      case array =>
        cases d.element with
        | none => exact L.pure _
        | some el => exact L.map (L.text hmap true el) _
      case byRef =>
        cases d.element with
        | none => exact L.pure _
        | some el => exact hmap el
      all_goals
        rw [hkind] at hother
        exact hother

end Likeness

end EmmyStubs
