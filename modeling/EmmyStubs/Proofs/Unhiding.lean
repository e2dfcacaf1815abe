import EmmyStubs.Proofs.Lines

/-! # Properties that hide others

    Whether a property hides those of its base types is asked when fields are collected, and
    nowhere else.  Leaving all these marks out changes no look-up, no name and no expression:

    * **`Graph.unhidden`**: the graph without the marks.
    * **`Surroundings.unhidden_compute`**: the expression of a type is made in the same way.
    * **`mapOn_unhidden`**: so types are mapped by the same requests.
-/

namespace EmmyStubs

/-- A property that hides nothing. -/
def Descriptor.Property.unhidden (p : Descriptor.Property) : Descriptor.Property :=
  { p with hidesBase := false }

/-- A type whose properties hide nothing. -/
def Descriptor.unhidden (d : Descriptor) : Descriptor :=
  { d with properties := d.properties.map (·.unhidden) }

namespace Graph

/-- The graph of the same types, none of whose properties hides anything. -/
def unhidden (g : Graph) : Graph :=
  ⟨g.descriptors.map (·.unhidden)⟩

variable {g : Graph} {d : Descriptor}

/-! ## §1. Look-ups and walks -/

@[simp] theorem find?_unhidden (id : Identity) :
    g.unhidden.find? id = (g.find? id).map (·.unhidden) :=
  List.find?_map

theorem findAll_unhidden (ids : List Identity) :
    g.unhidden.findAll ids = (g.findAll ids).map (·.unhidden) := by
  simp only [findAll, find?_unhidden, List.map_filterMap]

theorem chain_unhidden {next : Descriptor → Option Identity}
    (hnext : ∀ d : Descriptor, next d.unhidden = next d) (seen : List Identity)
    (start : Option Identity) :
    g.unhidden.chain next seen start = (g.chain next seen start).map (·.unhidden) := by
  fun_induction chain g next seen start with
  | case1 => rw [chain_none]; rfl
  | case2 seen id hn => rw [chain, dif_pos hn]; rfl
  | case3 seen id hn hd =>
    rw [chain, dif_neg hn]
    split
    · rfl
    · next d' hd' => rw [find?_unhidden, hd] at hd'; cases hd'
  | case4 seen id hn d hd ih =>
    have hd' : g.unhidden.find? id = some d.unhidden := by rw [find?_unhidden, hd]; rfl
    rw [chain_of_find? hn hd', hnext, ih, List.map_cons]

theorem hierarchy_unhidden :
    g.unhidden.hierarchy d.unhidden = (g.hierarchy d).map (·.unhidden) := by
  have hnext : ∀ d : Descriptor, d.unhidden.base = d.base := fun _ => rfl
  unfold hierarchy
  rw [chain_unhidden hnext, List.map_cons]
  rfl

theorem qualifiedName_unhidden : g.unhidden.qualifiedName d.unhidden = g.qualifiedName d := by
  have hnext : ∀ d : Descriptor, d.unhidden.declaring = d.declaring := fun _ => rfl
  have hnames : (g.unhidden.declaringChain d.unhidden).map (·.name)
      = (g.declaringChain d).map (·.name) := by
    unfold declaringChain
    rw [hnext, chain_unhidden hnext, List.map_reverse, List.map_reverse, List.map_map]
    rfl
  unfold qualifiedName
  rw [hnames]
  rfl

theorem implementation?_unhidden (shapes : List Identity) :
    g.unhidden.implementation? shapes d.unhidden
      = (g.implementation? shapes d).map (·.unhidden) := by
  have hone : ∀ c : Descriptor,
      (c.unhidden :: g.unhidden.findAll c.unhidden.interfaces).find? (Shape.isOneOf shapes)
        = ((c :: g.findAll c.interfaces).find? (Shape.isOneOf shapes)).map (·.unhidden) := by
    intro c
    have hall := findAll_unhidden (g := g) c.interfaces
    rw [show c.unhidden.interfaces = c.interfaces from rfl, hall, ← List.map_cons, List.find?_map]
    rfl
  unfold implementation?
  rw [hierarchy_unhidden, List.findSome?_map, List.map_findSome?]
  simp only [Function.comp_def, hone]

theorem annotatedType_unhidden (p : Descriptor.Parameter) :
    g.unhidden.annotatedType p = g.annotatedType p := by
  unfold annotatedType
  rw [find?_unhidden]
  cases g.find? p.type with
  | none => rfl
  | some d => rfl

end Graph

/-! ## §2. Expressions -/

theorem stubParameters_unhidden {m : Type → Type} [Monad m] {g : Graph}
    (text : Identity → m String) (ps : List Descriptor.Parameter) :
    stubParameters g.unhidden text ps = stubParameters g text ps := by
  induction ps with
  | nil => rfl
  | cons p ps ih => rw [stubParameters, stubParameters, Graph.annotatedType_unhidden, ih]

namespace Surroundings

variable {m : Type → Type} [Monad m] (e : Surroundings m)

/-- The surroundings of the graph without the marks; what they answer is up to them. -/
def unhidden (resolve : Descriptor → m String) : Surroundings m :=
  { e with graph := e.graph.unhidden, resolve }

variable {resolve : Descriptor → m String} {d : Descriptor}

theorem unhidden_delegate : (e.unhidden resolve).delegate d.unhidden = e.delegate d := by
  unfold delegate
  rw [show d.unhidden.invoke = d.invoke from rfl]
  cases d.invoke with
  | none => rfl
  | some i =>
    simp only [show (e.unhidden resolve).graph = e.graph.unhidden from rfl,
      stubParameters_unhidden]
    rfl

theorem unhidden_indexers (ps : List Descriptor.Property) :
    (e.unhidden resolve).indexers (ps.map (·.unhidden)) = e.indexers ps := by
  induction ps with
  | nil => rfl
  | cons p ps ih =>
    rw [List.map_cons, indexers, indexers, ih]
    rfl

theorem unhidden_iteration (shapes : List Identity) :
    (e.unhidden resolve).iteration shapes d.unhidden = e.iteration shapes d := by
  unfold iteration
  rw [show (e.unhidden resolve).graph = e.graph.unhidden from rfl, Graph.implementation?_unhidden]
  cases e.graph.implementation? shapes d with
  | none => rfl
  | some c => rfl

theorem unhidden_composite : (e.unhidden resolve).composite d.unhidden = e.composite d := by
  have hproperties : ((e.graph.unhidden.hierarchy d.unhidden).flatMap (·.properties))
      = ((e.graph.hierarchy d).flatMap (·.properties)).map (·.unhidden) := by
    rw [Graph.hierarchy_unhidden, List.flatMap_map, List.map_flatMap]
    rfl
  unfold composite
  rw [show (e.unhidden resolve).graph = e.graph.unhidden from rfl, hproperties, unhidden_indexers,
    unhidden_iteration, unhidden_iteration]

variable (hresolve : resolve d.unhidden = e.resolve d)
include hresolve

theorem unhidden_named : (e.unhidden resolve).named d.unhidden = e.named d := by
  unfold named
  rw [unhidden_composite, show (e.unhidden resolve).resolve d.unhidden = e.resolve d from hresolve]

theorem unhidden_instantiation :
    (e.unhidden resolve).instantiation d.unhidden = e.instantiation d := by
  unfold instantiation
  rw [unhidden_named e hresolve]
  rfl

/-- The expression of a type is made in the same way. -/
theorem unhidden_compute : (e.unhidden resolve).compute d.unhidden = e.compute d := by
  unfold compute
  rw [unhidden_instantiation e hresolve, unhidden_delegate,
    show (e.unhidden resolve).resolve d.unhidden = e.resolve d from hresolve]
  rfl

end Surroundings

/-! ## §3. Mapping -/

variable {g : Graph} {o : Options}

theorem resolve_unhidden (d : Descriptor) : resolve g.unhidden d.unhidden = resolve g d := by
  unfold resolve
  rw [Graph.qualifiedName_unhidden]
  congr 1
  funext name
  cases name with
  | some name => rfl
  | none => rfl

/-- A type is mapped by the same requests. -/
theorem mapOn_unhidden (stack : List Identity) (id : Identity) :
    mapOn g.unhidden o stack id = mapOn g o stack id := by
  -- By induction on the number of types of the graph that are not on the stack.
  induction hsize : g.unseen stack using Nat.strongRecOn generalizing stack id with
  | ind n ih =>
  rw [mapOn, mapOn]
  congr 1
  funext kept
  cases kept with
  | some t => rfl
  | none =>
    dsimp only
    split
    · rfl
    · next hn =>
      split
      · next hd =>
        rw [Graph.find?_unhidden, Option.map_eq_none_iff] at hd
        split
        · rfl
        · next hd' => rw [hd] at hd'; cases hd'
      · next d' hd' =>
        rw [Graph.find?_unhidden, Option.map_eq_some_iff] at hd'
        obtain ⟨d, hd, rfl⟩ := hd'
        split
        · next hd' => rw [hd] at hd'; cases hd'
        · next e he =>
          obtain rfl : d = e := Option.some_inj.1 (hd.symm.trans he)
          have hdeeper : ∀ id',
              mapOn g.unhidden o (id :: stack) id' = mapOn g o (id :: stack) id' :=
            fun id' => ih _ (hsize ▸ Graph.unseen_cons_lt hd hn) _ id' rfl
          simp only [hdeeper]
          exact congrArg (Walk.frame stack.length id) (Surroundings.unhidden_compute
            { graph := g, options := o, resolve := fun d => Walk.ofAction (resolve g d),
              map := fun id' => mapOn g o (id :: stack) id' }
            (congrArg Walk.ofAction (resolve_unhidden d)))

theorem typeText_unhidden (asPart : Bool) (id : Identity) :
    typeText g.unhidden o asPart id = typeText g o asPart id := by
  unfold typeText mapType
  rw [mapOn_unhidden]

end EmmyStubs
