import Mathlib.Logic.Relation
import EmmyStubs.Mapping.Walk

/-! # Which types a type depends on

    `Surroundings.compute` asks its surroundings to map other types.  Run in surroundings that
    note what they are asked for, it tells which types these are:

    * **`Graph.Depends`**: a type depends on those that are mapped for it.
    * **`Graph.dependencies`**: the same types, read off the descriptor.  What is mapped does
      not hang on the answers (`noting_compute`).
    * **`Tally`**: what every computation that maps just the dependencies has in common, in any
      monad.  One induction over the structure of `compute` serves all of them.
-/

namespace EmmyStubs

/-! ## §1. Noting what is mapped -/

/-- A result, and the types that were mapped for it in turn. -/
structure Noted (α : Type) where
  value : α
  mapped : List Identity

instance : Monad Noted where
  pure a := ⟨a, []⟩
  bind x f := ⟨(f x.value).value, x.mapped ++ (f x.value).mapped⟩

namespace Surroundings

/-- Surroundings without a cache: a name is computed, and `answer` stands for the mapping of
    other types. -/
def plain (g : Graph) (o : Options) (answer : Identity → TypeExpr) : Surroundings Id where
  graph := g
  options := o
  resolve := fun d => g.qualifiedName d
  map := answer

/-- The same surroundings, noting which types they are asked to map. -/
def noting (g : Graph) (o : Options) (answer : Identity → TypeExpr) : Surroundings Noted where
  graph := g
  options := o
  resolve := fun d => ⟨g.qualifiedName d, []⟩
  map := fun id => ⟨answer id, [id]⟩

end Surroundings

namespace Graph

/-- `u` is mapped when the expression of `t` is computed. -/
def Depends (g : Graph) (o : Options) (t u : Identity) : Prop :=
  ∃ d answer, g.find? t = some d ∧ u ∈ ((Surroundings.noting g o answer).compute d).mapped

/-- `u` is `t`, or is reached from it by dependencies. -/
abbrev Leads (g : Graph) (o : Options) : Identity → Identity → Prop :=
  Relation.ReflTransGen (g.Depends o)

/-- `t` lies on a cycle of dependencies. -/
def Cyclic (g : Graph) (o : Options) (t : Identity) : Prop :=
  Relation.TransGen (g.Depends o) t t

/-- The graph has a descriptor for `t`. -/
def Knows (g : Graph) (t : Identity) : Prop :=
  (g.find? t).isSome

/-- `d` is the graph's descriptor of its identity. -/
def Has (g : Graph) (d : Descriptor) : Prop :=
  g.find? d.identity = some d

theorem has_of_find? {g : Graph} {id : Identity} {d : Descriptor} (h : g.find? id = some d) :
    g.Has d := by
  rw [Has, identity_of_find? h, h]

/-! ## §2. The dependencies of a descriptor -/

/-- The types in the signature that a delegate calls. -/
def delegateLinks (g : Graph) (d : Descriptor) : List Identity :=
  match d.invoke with
  | none => []
  | some i => i.parameters.map g.annotatedType ++ i.returnType.toList

/-- The key and the value of every public indexer. -/
def indexerLinks : List Descriptor.Property → List Identity
  | [] => []
  | p :: ps =>
    match p.isPublicIndexer, p.indexParameters with
    | true, i :: _ => i.type :: p.type :: indexerLinks ps
    | _, _ => indexerLinks ps

/-- The items of the sequence that a type is. -/
def iterationLinks (g : Graph) (shapes : List Identity) (d : Descriptor) : List Identity :=
  ((g.implementation? shapes d).bind (·.genericArguments.head?)).toList

def compositeLinks (g : Graph) (d : Descriptor) : List Identity :=
  indexerLinks ((g.hierarchy d).flatMap (·.properties)) ++ g.iterationLinks Shape.enumerables d
    ++ g.iterationLinks Shape.enumerators d

def namedLinks (g : Graph) (d : Descriptor) : List Identity :=
  if g.qualifiedName d = Lua.userdata then g.compositeLinks d else []

def instantiationLinks (g : Graph) (o : Options) (d : Descriptor) : List Identity :=
  match d.genericArguments with
  | [] => g.namedLinks d
  | a :: rest =>
    if o.isList d then [a]
    else
      match rest with
      | [] => g.namedLinks d
      | b :: _ => if o.isDictionary d then [a, b] else g.namedLinks d

/-- The types that are mapped for a type, in order. -/
def dependencies (g : Graph) (o : Options) (d : Descriptor) : List Identity :=
  if d.kind = .void then []
  else
    match Lua.primitive? d.identity with
    | some _ => []
    | none =>
      if d.isGenericMethodParameter then []
      else
        match d.kind with
        | .enum => []
        | .array => d.element.toList
        | .byRef => d.element.toList
        | _ =>
          if d.kind = .delegate ∧ d.identity ∉ Shape.delegateRoots then g.delegateLinks d
          else
            match d.nullableUnderlying? with
            | some u => [u]
            | none => g.instantiationLinks o d

end Graph

/-! ## §3. Tallies -/

/-- A judgement on computations, their results and the types mapped for them, that is kept
    when computations are put behind one another. -/
structure Tally (m : Type → Type) [Monad m] where
  Holds : {α : Type} → m α → α → List Identity → Prop
  pure : ∀ {α : Type} (a : α), Holds (Pure.pure a) a []
  bind : ∀ {α β : Type} {x : m α} {f : α → m β} {a : α} {b : β} {l l' : List Identity},
    Holds x a l → Holds (f a) b l' → Holds (x >>= f) b (l ++ l')

namespace Tally

variable {m : Type → Type} [Monad m] (T : Tally m)

/-- A last step that maps nothing. -/
theorem last {α β : Type} {x : m α} {f : α → m β} {a : α} {b : β} {l : List Identity}
    (hx : T.Holds x a l) (hf : T.Holds (f a) b []) : T.Holds (x >>= f) b l := by
  have := T.bind hx hf
  rwa [List.append_nil] at this

variable {e : Surroundings m} {answer : Identity → TypeExpr}

theorem text (asPart : Bool) {id : Identity} (hmap : T.Holds (e.map id) (answer id) [id]) :
    T.Holds (e.text asPart id) ((answer id).render asPart) [id] :=
  T.last hmap (T.pure _)

theorem stubParameters {g : Graph} (text : Identity → m String) (answer : Identity → String)
    (ps : List Descriptor.Parameter)
    (htext : ∀ id ∈ ps.map g.annotatedType, T.Holds (text id) (answer id) [id]) :
    T.Holds (stubParameters g text ps) (EmmyStubs.stubParameters (m := Id) g answer ps)
      (ps.map g.annotatedType) := by
  induction ps with
  | nil => exact T.pure _
  | cons p ps ih =>
    have hp := htext (g.annotatedType p) (by simp)
    have hps := ih fun id hid => htext id (List.mem_cons_of_mem _ hid)
    exact T.bind hp (T.last hps (T.pure _))

theorem returnText (text : Identity → m String) (answer : Identity → String)
    (type : Option Identity) (htext : ∀ id ∈ type.toList, T.Holds (text id) (answer id) [id]) :
    T.Holds (returnText text type) (EmmyStubs.returnText (m := Id) answer type) type.toList := by
  cases type with
  | none => exact T.pure _
  | some id => exact htext id (by simp)

/-- The surroundings of `e`, with `answer` for the mapping of other types. -/
abbrev answered (e : Surroundings m) (answer : Identity → TypeExpr) : Surroundings Id :=
  Surroundings.plain e.graph e.options answer

theorem delegate (d : Descriptor)
    (hmap : ∀ id ∈ e.graph.delegateLinks d, T.Holds (e.map id) (answer id) [id]) :
    T.Holds (e.delegate d) ((answered e answer).delegate d) (e.graph.delegateLinks d) := by
  unfold Surroundings.delegate
  unfold Graph.delegateLinks at hmap ⊢
  cases hinvoke : d.invoke with
  | none => exact T.pure _
  | some i =>
    simp only [hinvoke, List.mem_append] at hmap
    have hps := T.stubParameters (e.text true) (fun id => (answer id).render true) i.parameters
      fun id hid => T.text true (hmap id (.inl hid))
    have hret := T.returnText (e.text false) (fun id => (answer id).render false) i.returnType
      fun id hid => T.text false (hmap id (.inr hid))
    exact T.bind hps (T.last hret (T.pure _))

theorem indexers (ps : List Descriptor.Property)
    (hmap : ∀ id ∈ Graph.indexerLinks ps, T.Holds (e.map id) (answer id) [id]) :
    T.Holds (e.indexers ps) ((answered e answer).indexers ps) (Graph.indexerLinks ps) := by
  fun_induction Graph.indexerLinks ps with
  | case1 => exact T.pure _
  | case2 p ps i is hp hi ih =>
    rw [Surroundings.indexers, Surroundings.indexers, hp, hi]
    have hkey := T.text false (hmap i.type (by simp))
    have hvalue := T.text false (hmap p.type (by simp))
    have hrest := ih fun id hid => hmap id (by simp [hid])
    exact T.bind hkey (T.bind hvalue (T.last hrest (T.pure _)))
  | case3 p ps hother ih =>
    rw [Surroundings.indexers, Surroundings.indexers]
    split
    · next i is hp hi => exact absurd hi (hother i is hp)
    · exact ih hmap

theorem iteration (shapes : List Identity) (d : Descriptor)
    (hmap : ∀ id ∈ e.graph.iterationLinks shapes d, T.Holds (e.map id) (answer id) [id]) :
    T.Holds (e.iteration shapes d) ((answered e answer).iteration shapes d)
      (e.graph.iterationLinks shapes d) := by
  unfold Surroundings.iteration
  unfold Graph.iterationLinks at hmap ⊢
  have hsame : (answered e answer).graph = e.graph := rfl
  rw [hsame]
  cases hargument : (e.graph.implementation? shapes d).bind (·.genericArguments.head?) with
  | none => exact T.pure _
  | some argument =>
    rw [hargument] at hmap
    exact T.last (T.text _ (hmap argument (by simp))) (T.pure _)

theorem composite (d : Descriptor)
    (hmap : ∀ id ∈ e.graph.compositeLinks d, T.Holds (e.map id) (answer id) [id]) :
    T.Holds (e.composite d) ((answered e answer).composite d) (e.graph.compositeLinks d) := by
  simp only [Graph.compositeLinks, List.mem_append] at hmap
  have htables := T.indexers ((e.graph.hierarchy d).flatMap (·.properties)) fun id hid =>
    hmap id (.inl (.inl hid))
  have hitems := T.iteration Shape.enumerables d fun id hid => hmap id (.inl (.inr hid))
  have hsteps := T.iteration Shape.enumerators d fun id hid => hmap id (.inr hid)
  rw [Graph.compositeLinks, List.append_assoc]
  exact T.bind htables (T.bind hitems (T.last hsteps (T.pure _)))

variable {d : Descriptor} (hname : T.Holds (e.resolve d) (e.graph.qualifiedName d) [])
include hname

theorem named (hmap : ∀ id ∈ e.graph.namedLinks d, T.Holds (e.map id) (answer id) [id]) :
    T.Holds (e.named d) ((answered e answer).named d) (e.graph.namedLinks d) := by
  have hrest : T.Holds
      (if e.graph.qualifiedName d = Lua.userdata then e.composite d
        else Pure.pure ⟨e.graph.qualifiedName d, false⟩)
      ((answered e answer).named d) (e.graph.namedLinks d) := by
    unfold Graph.namedLinks at hmap ⊢
    unfold Surroundings.named
    -- Only a type without a name of its own goes on to its parts.
    show T.Holds _ (if e.graph.qualifiedName d = Lua.userdata then _ else _) _
    split
    · next h =>
      rw [if_pos h] at hmap
      exact T.composite d hmap
    · exact T.pure _
  exact T.bind hname hrest

theorem instantiation
    (hmap : ∀ id ∈ e.graph.instantiationLinks e.options d, T.Holds (e.map id) (answer id) [id]) :
    T.Holds (e.instantiation d) ((answered e answer).instantiation d)
      (e.graph.instantiationLinks e.options d) := by
  unfold Surroundings.instantiation
  unfold Graph.instantiationLinks at hmap ⊢
  -- A list takes one argument and a dictionary two; whatever has fewer is mapped by its name.
  cases hargs : d.genericArguments with
  | nil =>
    rw [hargs] at hmap
    exact T.named hname hmap
  | cons a rest =>
    simp only [hargs] at hmap
    dsimp only
    by_cases hlist : e.options.isList d
    · have hlist' : (answered e answer).options.isList d := hlist
      rw [if_pos hlist] at hmap
      rw [if_pos hlist, if_pos hlist', if_pos hlist]
      exact T.last (T.text _ (hmap a (by simp))) (T.pure _)
    · have hlist' : ¬(answered e answer).options.isList d := hlist
      rw [if_neg hlist] at hmap
      rw [if_neg hlist, if_neg hlist', if_neg hlist]
      cases rest with
      | nil => exact T.named hname hmap
      | cons b bs =>
        by_cases hdict : e.options.isDictionary d
        · have hdict' : (answered e answer).options.isDictionary d := hdict
          simp only [if_pos hdict, if_pos hdict'] at hmap ⊢
          have hkey := T.text false (hmap a (by simp))
          have hvalue := T.text false (hmap b (by simp))
          exact T.bind hkey (T.last hvalue (T.pure _))
        · have hdict' : ¬(answered e answer).options.isDictionary d := hdict
          simp only [if_neg hdict, if_neg hdict'] at hmap ⊢
          exact T.named hname hmap

variable (answer) in
/-- Computing the expression of a type maps its dependencies and nothing else, and gives what
    the plain surroundings give. -/
theorem compute
    (hmap : ∀ id ∈ e.graph.dependencies e.options d, T.Holds (e.map id) (answer id) [id]) :
    T.Holds (e.compute d) ((answered e answer).compute d) (e.graph.dependencies e.options d) := by
  unfold Surroundings.compute
  unfold Graph.dependencies at hmap ⊢
  -- `compute` and `dependencies` ask the same questions in the same order, so each case of the one
  -- is a case of the other.
  by_cases hvoid : d.kind = .void
  · rw [if_pos hvoid, if_pos hvoid, if_pos hvoid]
    exact T.pure _
  rw [if_neg hvoid] at hmap
  rw [if_neg hvoid, if_neg hvoid, if_neg hvoid]
  cases hprim : Lua.primitive? d.identity with
  | some token => exact T.pure _
  | none =>
  by_cases hparam : d.isGenericMethodParameter
  · simp only [if_pos hparam]
    exact T.pure _
  simp only [hprim, if_neg hparam] at hmap ⊢
  -- The kinds without a rule of their own: a delegate, a nullable type, or a named one.
  have hother :
      (∀ id ∈ (if d.kind = .delegate ∧ d.identity ∉ Shape.delegateRoots then
          e.graph.delegateLinks d
        else match d.nullableUnderlying? with
          | some u => [u]
          | none => e.graph.instantiationLinks e.options d),
        T.Holds (e.map id) (answer id) [id]) →
      T.Holds
        (if d.kind = .delegate ∧ d.identity ∉ Shape.delegateRoots then e.delegate d
        else match d.nullableUnderlying? with
          | some u => do
            let t ← e.text true u
            Pure.pure ⟨t ++ "|nil", true⟩
          | none => e.instantiation d)
        (if d.kind = .delegate ∧ d.identity ∉ Shape.delegateRoots then
          (answered e answer).delegate d
        else match d.nullableUnderlying? with
          | some u => (⟨(answer u).render true ++ "|nil", true⟩ : TypeExpr)
          | none => (answered e answer).instantiation d)
        (if d.kind = .delegate ∧ d.identity ∉ Shape.delegateRoots then e.graph.delegateLinks d
        else match d.nullableUnderlying? with
          | some u => [u]
          | none => e.graph.instantiationLinks e.options d) := by
    intro hmap
    by_cases hdelegate : d.kind = .delegate ∧ d.identity ∉ Shape.delegateRoots
    · simp only [if_pos hdelegate] at hmap ⊢
      exact T.delegate d hmap
    simp only [if_neg hdelegate] at hmap ⊢
    cases hnull : d.nullableUnderlying? with
    | some u =>
      rw [hnull] at hmap
      exact T.last (T.text _ (hmap u (by simp))) (T.pure _)
    | none =>
      rw [hnull] at hmap
      exact T.instantiation hname hmap
  cases hkind : d.kind with
  | enum => exact T.last hname (T.pure _)
  | array =>
    rw [hkind] at hmap
    cases hel : d.element with
    | none => exact T.pure _
    | some el =>
      rw [hel] at hmap
      exact T.last (T.text _ (hmap el (by simp))) (T.pure _)
  | byRef =>
    rw [hkind] at hmap
    cases hel : d.element with
    | none => exact T.pure _
    | some el =>
      rw [hel] at hmap
      exact hmap el (by simp)
  | _ =>
    rw [hkind] at hmap hother
    exact hother hmap

end Tally

/-! ## §4. What follows for the plain surroundings -/

namespace Surroundings

variable {g : Graph} {o : Options}

/-- Noted as they are mapped, the types are the dependencies, whatever they are mapped to. -/
theorem noting_compute (answer : Identity → TypeExpr) (d : Descriptor) :
    (noting g o answer).compute d = ⟨(plain g o answer).compute d, g.dependencies o d⟩ := by
  let T : Tally Noted :=
    -- Here the judgement is an equation, which says all about the result and its notes.
    { Holds := fun x a l => x = ⟨a, l⟩
      pure := fun _ => rfl
      bind := by
        rintro α β x f a b l l' rfl hf
        show Noted.mk (f a).value (l ++ (f a).mapped) = ⟨b, l ++ l'⟩
        rw [hf] }
  exact T.compute (e := noting g o answer) answer rfl fun _ _ => rfl

/-- The expression of a type hangs on the answers for its dependencies only. -/
theorem plain_congr {answer answer' : Identity → TypeExpr} {d : Descriptor}
    (h : ∀ id ∈ g.dependencies o d, answer id = answer' id) :
    (plain g o answer).compute d = (plain g o answer').compute d := by
  let T : Tally Id :=
    -- Without notes it says that the results are equal.
    { Holds := fun x a _ => x = a
      pure := fun _ => rfl
      bind := by
        rintro α β x f a b l l' rfl hf
        exact hf }
  exact T.compute (e := plain g o answer) answer' rfl h

end Surroundings

namespace Graph

variable {g : Graph} {o : Options}

theorem depends_iff {t u : Identity} :
    g.Depends o t u ↔ ∃ d, g.find? t = some d ∧ u ∈ g.dependencies o d := by
  constructor
  · rintro ⟨d, answer, hd, hu⟩
    rw [Surroundings.noting_compute] at hu
    exact ⟨d, hd, hu⟩
  · rintro ⟨d, hd, hu⟩
    -- Any answers will do, since they do not decide what is mapped.
    refine ⟨d, fun _ => ⟨Lua.userdata, false⟩, hd, ?_⟩
    rw [Surroundings.noting_compute]
    exact hu

theorem depends_of_mem {t u : Identity} {d : Descriptor} (hd : g.find? t = some d)
    (hu : u ∈ g.dependencies o d) : g.Depends o t u :=
  depends_iff.2 ⟨d, hd, hu⟩

theorem mem_of_depends {t u : Identity} {d : Descriptor} (hd : g.find? t = some d)
    (hu : g.Depends o t u) : u ∈ g.dependencies o d := by
  obtain ⟨d', hd', hu'⟩ := depends_iff.1 hu
  rw [hd, Option.some.injEq] at hd'
  exact hd' ▸ hu'

end Graph

end EmmyStubs
