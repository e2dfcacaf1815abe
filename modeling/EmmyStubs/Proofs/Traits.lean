import EmmyStubs.Declaration.Group
import EmmyStubs.Proofs.Buckets
import EmmyStubs.Proofs.Likenesses
import EmmyStubs.Proofs.Links
import EmmyStubs.Selection.Filter

/-! # Traits of actions

    Much of what can be said of an action holds of a whole translation because it holds of the
    requests that it is built from.

    * **`Trait`**: a property of computations that is kept when they are put behind one another.
    * **`Trait.compute`**: the expression of a type has a trait that naming it and mapping others
      have.
    * **`Trait.Serves`**: naming the types of a graph, mapping those that it refers to and
      reporting have the trait.  Then selections, members, declarations and whole groups have
      it.
-/

namespace EmmyStubs

variable {α β : Type}

/-- A property of computations that is kept when they are put behind one another. -/
structure Trait (m : Type → Type) [Monad m] where
  Of : {α : Type} → m α → Prop
  pure : ∀ {α : Type} (a : α), Of (Pure.pure a)
  bind : ∀ {α β : Type} {x : m α} {f : α → m β}, Of x → (∀ a, Of (f a)) → Of (x >>= f)

namespace Trait

/-! ## §1. Signatures and expressions -/

section

variable {m : Type → Type} [Monad m] (T : Trait m)

/-- A computation, and then a function of its result. -/
theorem map {x : m α} (hx : T.Of x) (k : α → β) : T.Of (x >>= fun a => Pure.pure (k a)) :=
  T.bind hx fun a => T.pure (k a)

/-- A computation with the trait is like itself. -/
def same : Likeness m m where
  Of x y := x = y ∧ T.Of x
  pure a := ⟨rfl, T.pure a⟩
  bind := by
    intro α β x y f h hx hf
    obtain rfl : f = h := funext fun a => (hf a).1
    exact ⟨by rw [hx.1], T.bind hx.2 fun a => (hf a).2⟩

theorem stubParameters {g : Graph} {text : Identity → m String} {ps : List Descriptor.Parameter}
    (h : ∀ id ∈ ps.map g.annotatedType, T.Of (text id)) :
    T.Of (EmmyStubs.stubParameters g text ps) :=
  (T.same.stubParameters fun id hid => ⟨rfl, h id hid⟩).2

theorem returnText {text : Identity → m String} {type : Option Identity}
    (h : ∀ id ∈ type.toList, T.Of (text id)) : T.Of (EmmyStubs.returnText text type) :=
  (T.same.returnText fun id hid => ⟨rfl, h id hid⟩).2

/-- The expression of a type is made by naming it and mapping others. -/
theorem compute {e : Surroundings m} (hmap : ∀ id, T.Of (e.map id)) {d : Descriptor}
    (hname : T.Of (e.resolve d)) : T.Of (e.compute d) :=
  (T.same.compute (e := e) (fun id => ⟨rfl, hmap id⟩) ⟨rfl, hname⟩).2

end

end Trait

/-! ## §2. Types met on the way -/

namespace Members

variable {g : Graph} {d : Descriptor}

theorem has_of_mem_candidates {ancestors : Bool} {e : Descriptor} (hd : g.Has d)
    (h : e ∈ candidates g d ancestors) : g.Has e := by
  unfold candidates at h
  split at h
  · exact Graph.has_of_mem_hierarchy hd h
  · exact List.mem_singleton.1 h ▸ hd

/-- The types that visible members have. -/
theorem linked_of_visible {ds : List Descriptor} (h : ∀ d ∈ ds, g.Has d) :
    ∀ v ∈ visibleMembers ds, g.Linked v.type := by
  intro v hv
  rcases List.mem_append.1 hv with hv | hv
  · obtain ⟨d, hd, hv⟩ := List.mem_flatMap.1 hv
    obtain ⟨p, hp, rfl⟩ := List.mem_map.1 hv
    exact Graph.linked_of_property (h d hd) (List.mem_filter.1 hp).1 List.mem_cons_self
  · obtain ⟨d, hd, hv⟩ := List.mem_flatMap.1 hv
    obtain ⟨f, hf, rfl⟩ := List.mem_map.1 hv
    exact Graph.linked_of_field (h d hd) (List.mem_filter.1 hf).1

/-- The graph refers to all types in the signatures of some methods. -/
abbrev Refers (g : Graph) (ms : List Descriptor.Method) : Prop :=
  ∀ m ∈ ms, ∀ t ∈ m.links, g.Linked t

theorem refers_candidateMethods {ancestors : Bool} (hd : g.Has d) :
    Refers g (candidateMethods g d ancestors) := by
  intro m hm t ht
  obtain ⟨e, he, hm⟩ := List.mem_flatMap.1 hm
  exact Graph.linked_of_method (has_of_mem_candidates hd he) (.inl hm) ht

theorem refers_constructors (hd : g.Has d) : Refers g d.constructors :=
  fun _ hm _ ht => Graph.linked_of_method hd (.inr (.inl hm)) ht

end Members

/-! ## §3. Members of a class -/

/-- The requests of a translation have the trait, as long as they are about types of the graph
    or types that it refers to. -/
structure Trait.Serves (T : Trait Action) (g : Graph) (o : Options) : Prop where
  resolve : ∀ {d : Descriptor}, g.Has d → T.Of (resolve g d)
  typeText : ∀ {asPart : Bool} {id : Identity}, g.Linked id → T.Of (typeText g o asPart id)
  report : ∀ (level : Log.Level) (source : Log.Source) (message : String),
    T.Of (Action.report level source message)

namespace Trait.Serves

open Members

variable {g : Graph} {o : Options} {T : Trait Action} (hT : T.Serves g o)
include hT

theorem fieldsOf {taken hidden : List String} {vs : List Visible}
    (h : ∀ v ∈ vs, g.Linked v.type) : T.Of (fieldsOf g o taken hidden vs) := by
  induction vs generalizing taken hidden with
  | nil => exact T.pure _
  | cons v vs ih =>
    have hvs : ∀ taken hidden, T.Of (Members.fieldsOf g o taken hidden vs) :=
      fun _ _ => ih fun w hw => h w (List.mem_cons_of_mem v hw)
    unfold Members.fieldsOf
    dsimp only
    split
    · exact hvs _ _
    · split
      · exact T.bind (hT.report _ _ _) fun _ => hvs _ _
      · have hfield : T.Of (fieldOf g o v) := T.map (hT.typeText (h v List.mem_cons_self)) _
        exact T.bind hfield fun _ => T.map (hvs _ _) _

theorem fields {d : Descriptor} (hd : g.Has d) {ancestors : Bool} :
    T.Of (fields g o d ancestors) :=
  hT.fieldsOf (linked_of_visible fun _ => has_of_mem_candidates hd)

/-! ### Methods -/

theorem result {m : Descriptor.Method} (h : ∀ t ∈ m.links, g.Linked t) :
    T.Of (EmmyStubs.returnText (EmmyStubs.typeText g o false) m.returnType) :=
  T.returnText fun t ht =>
    hT.typeText (Graph.linked_of_signature h t (List.mem_append_right _ ht))

theorem parameters {m : Descriptor.Method} (h : ∀ t ∈ m.links, g.Linked t) :
    T.Of (EmmyStubs.stubParameters g (EmmyStubs.typeText g o false) m.parameters) :=
  T.stubParameters fun t ht =>
    hT.typeText (Graph.linked_of_signature h t (List.mem_append_left _ ht))

theorem signature {m : Descriptor.Method} (h : ∀ t ∈ m.links, g.Linked t) :
    T.Of (signature g o m) :=
  T.bind (hT.parameters h) fun _ => T.map (hT.result h) _

theorem operatorOf {m : Descriptor.Method} (h : ∀ t ∈ m.links, g.Linked t) :
    T.Of (operatorOf g o m) := by
  unfold Members.operatorOf
  split
  · exact T.pure _
  · refine T.bind (hT.result h) fun result => ?_
    split
    · exact T.pure _
    · split
      · next first second rest hps =>
        have hsecond : second.type ∈ m.links := by
          simp [Descriptor.Method.links, hps, Descriptor.Parameter.links]
        exact T.map (hT.typeText (h _ hsecond)) _
      · exact T.pure _

theorem operatorsOf {ms : List Descriptor.Method} (h : Refers g ms) :
    T.Of (operatorsOf g o ms) := by
  induction ms with
  | nil => exact T.pure _
  | cons m ms ih =>
    have hrest := ih fun n hn => h n (List.mem_cons_of_mem m hn)
    exact T.bind (hT.operatorOf (h m List.mem_cons_self)) fun _ => T.map hrest _

theorem operators {d : Descriptor} (hd : g.Has d) : T.Of (operators g o d) := by
  refine hT.operatorsOf fun m hm t ht => ?_
  exact Graph.linked_of_method hd (.inl (List.mem_filter.1 hm).1) ht

theorem overloadsOf {ms : List Descriptor.Method} (h : Refers g ms) :
    T.Of (overloadsOf g o ms) := by
  induction ms with
  | nil => exact T.pure _
  | cons m ms ih =>
    have hrest := ih fun n hn => h n (List.mem_cons_of_mem m hn)
    exact T.bind (hT.signature (h m List.mem_cons_self)) fun _ => T.map hrest _

theorem groupRecords {className : String} {entries : List (GroupKey × List Descriptor.Method)}
    (h : ∀ e ∈ entries, Refers g e.2) : T.Of (groupRecords g o className entries) := by
  fun_induction Members.groupRecords g o className entries with
  | case1 => exact T.pure _
  | case2 k rest ih => exact ih fun e he => h e (List.mem_cons_of_mem _ he)
  | case3 k first others rest ih =>
    have hentry : Refers g (first :: others) := h (k, first :: others) List.mem_cons_self
    have hrest := ih fun e he => h e (List.mem_cons_of_mem _ he)
    refine T.bind (hT.signature (hentry first List.mem_cons_self)) fun _ => ?_
    refine T.bind (hT.overloadsOf fun m hm => ?_) fun _ => T.map hrest _
    exact hentry m (List.mem_cons_of_mem first hm)

theorem methods {d : Descriptor} (hd : g.Has d) {ancestors : Bool} :
    T.Of (methods g o d ancestors) := by
  refine T.bind (hT.resolve hd) fun className => hT.groupRecords ?_
  intro e he m hm
  have hmem := mem_of_mem_groups ⟨e, he, hm⟩
  exact refers_candidateMethods hd m (List.mem_filter.1 hmem).1

/-! ### Generic methods and constructors -/

theorem resolveAll {ds : List Descriptor} (h : ∀ d ∈ ds, g.Has d) : T.Of (resolveAll g ds) := by
  induction ds with
  | nil => exact T.pure _
  | cons d ds ih =>
    have hrest := ih fun e he => h e (List.mem_cons_of_mem d he)
    exact T.bind (hT.resolve (h d List.mem_cons_self)) fun _ => T.map hrest _

theorem genericParameters {ds : List Descriptor} : T.Of (genericParameters g ds) := by
  induction ds with
  | nil => exact T.pure _
  | cons d ds ih =>
    have hfirst : T.Of (genericParameter g d) := by
      unfold genericParameter
      split
      · exact T.pure _
      · exact T.map (hT.resolveAll fun _ => Graph.has_of_mem_findAll) _
    exact T.bind hfirst fun _ => T.map ih _

theorem genericRecords {className : String} {ms : List Descriptor.Method} (h : Refers g ms) :
    T.Of (genericRecords g o className ms) := by
  induction ms with
  | nil => exact T.pure _
  | cons m ms ih =>
    have hrest := ih fun n hn => h n (List.mem_cons_of_mem m hn)
    refine T.bind hT.genericParameters fun _ => ?_
    exact T.bind (hT.signature (h m List.mem_cons_self)) fun _ => T.map hrest _

theorem constructorOverloads {className : String} {ms : List Descriptor.Method}
    (h : Refers g ms) : T.Of (constructorOverloads g o className ms) := by
  induction ms with
  | nil => exact T.pure _
  | cons m ms ih =>
    have hrest := ih fun n hn => h n (List.mem_cons_of_mem m hn)
    exact T.bind (hT.parameters (h m List.mem_cons_self)) fun _ => T.map hrest _

theorem genericMethods {d : Descriptor} (hd : g.Has d) {ancestors : Bool} :
    T.Of (genericMethods g o d ancestors) := by
  refine T.bind (hT.resolve hd) fun className => hT.genericRecords ?_
  exact fun m hm => refers_candidateMethods hd m (List.mem_filter.1 hm).1

theorem constructor? {d : Descriptor} (hd : g.Has d) : T.Of (constructor? g o d) := by
  have hall : Refers g (d.constructors.filter fun c => !c.isStatic && !c.isCompilerGenerated) :=
    fun m hm => refers_constructors hd m (List.mem_filter.1 hm).1
  unfold Members.constructor?
  split
  · exact T.pure _
  · next first others heq =>
    rw [heq] at hall
    refine T.bind (hT.resolve hd) fun className => ?_
    refine T.bind (hT.parameters (hall first List.mem_cons_self)) fun _ => ?_
    refine T.map (hT.constructorOverloads fun m hm => ?_) _
    exact hall m (List.mem_cons_of_mem first hm)

/-! ### Base types -/

theorem indexerTables {ps : List Descriptor.Property}
    (h : ∀ p ∈ ps, ∀ t ∈ p.links, g.Linked t) : T.Of (indexerTables g o ps) := by
  induction ps with
  | nil => exact T.pure _
  | cons p ps ih =>
    have hlinks := h p List.mem_cons_self
    have hrest := ih fun q hq => h q (List.mem_cons_of_mem p hq)
    unfold Members.indexerTables
    split
    · next i is hp hi =>
      have hkey : i.type ∈ p.links := by
        simp [Descriptor.Property.links, hi, Descriptor.Parameter.links]
      refine T.bind (hT.typeText (hlinks _ hkey)) fun _ => ?_
      exact T.bind (hT.typeText (hlinks p.type List.mem_cons_self)) fun _ => T.map hrest _
    · exact hrest

theorem baseTypes {d : Descriptor} (hd : g.Has d) : T.Of (baseTypes g o d) := by
  have hrest : ∀ first : List String × Bool, T.Of (do
      let interfaces ← Members.resolveAll g ((g.findAll d.interfaces).filter (!·.isGeneric))
      let tables ← Members.indexerTables g o d.properties
      return (unique (first.1 ++ interfaces ++ (Lua.primitive? d.identity).toList ++ tables),
        first.2)) := by
    intro first
    refine T.bind (hT.resolveAll fun e he => ?_) fun _ => ?_
    · exact Graph.has_of_mem_findAll (List.mem_filter.1 he).1
    · exact T.map (hT.indexerTables fun p hp t => Graph.linked_of_property hd hp) _
  unfold Members.baseTypes
  dsimp only
  split
  · next b hb =>
    obtain ⟨id, -, hid⟩ := Option.bind_eq_some_iff.1 (Option.filter_eq_some_iff.1 hb).1
    exact T.bind (hT.resolve (Graph.has_of_find? hid)) fun name => hrest _
  · exact hrest _

/-! ## §4. Declarations -/

theorem allMembers {d : Descriptor} (hd : g.Has d) {ancestors : Bool} :
    T.Of (allMembers g o d ancestors) := by
  refine T.bind (hT.fields hd) fun _ => ?_
  refine T.bind (hT.operators hd) fun _ => ?_
  refine T.bind (hT.methods hd) fun _ => ?_
  refine T.bind (hT.genericMethods hd) fun _ => ?_
  exact T.map (hT.constructor? hd) _

theorem classDeclaration {d : Descriptor} (hd : g.Has d) : T.Of (classDeclaration g o d) := by
  refine T.bind (hT.baseTypes hd) fun bases => ?_
  have hrest : T.Of (do
      let ms ← EmmyStubs.allMembers g o d (o.flatten || bases.2)
      let name ← EmmyStubs.resolve g d
      return ({
        name
        baseTypes := bases.1
        fields := ms.fields
        operators := ms.operators
        methods := ms.methods.map .group ++ ms.genericMethods.map .generic
        constructor := ms.constructor } : Stub.ClassDeclaration)) :=
    T.bind (hT.allMembers hd) fun _ => T.map (hT.resolve hd) _
  dsimp only
  split
  · exact T.bind (hT.report _ _ _) fun _ => hrest
  · exact hrest

theorem declaration {d : Descriptor} (hd : g.Has d) : T.Of (declaration g o d) := by
  unfold EmmyStubs.declaration
  split
  · split
    · exact T.pure _
    · exact T.map (hT.resolve hd) _
  · exact T.map (hT.classDeclaration hd) _

theorem renderType {d : Descriptor} (hd : g.Has d) : T.Of (renderType g o d) := by
  refine T.bind (hT.declaration hd) fun c => ?_
  split <;> exact T.pure _

theorem renderTypes {assembly : Option String} {ds : List Descriptor} (h : ∀ d ∈ ds, g.Has d) :
    T.Of (renderTypes g o assembly ds) := by
  induction ds with
  | nil => exact T.pure _
  | cons d ds ih =>
    have hrest := ih fun e he => h e (List.mem_cons_of_mem d he)
    refine T.bind (hT.renderType (h d List.mem_cons_self)) fun r => ?_
    split
    · exact T.map hrest _
    · exact T.bind (hT.report _ _ _) fun _ => T.map hrest _

theorem renderGroup {assembly : Option String} {grp : Group} (h : ∀ d ∈ grp.types, g.Has d) :
    T.Of (renderGroup g o assembly grp) :=
  T.map (hT.renderTypes h) _

theorem renderAll {assembly : Option String} {groups : List Group}
    (h : ∀ grp ∈ groups, ∀ d ∈ grp.types, g.Has d) : T.Of (renderAll g o assembly groups) := by
  induction groups with
  | nil => exact T.pure _
  | cons grp rest ih =>
    have hrest := ih fun grp' hgrp => h grp' (List.mem_cons_of_mem grp hgrp)
    exact T.bind (hT.renderGroup (h grp List.mem_cons_self)) fun _ => T.map hrest _

/-! ## §5. Selections -/

open Selection

theorem reportEach (filters : List String) : T.Of (reportEach filters) := by
  induction filters with
  | nil => exact T.pure _
  | cons f fs ih => exact T.bind (hT.report _ _ _) fun _ => ih

theorem normaliseFilters (filters : List String) : T.Of (normaliseFilters filters) := by
  unfold Selection.normaliseFilters
  dsimp only
  split
  · refine T.bind (hT.report _ _ _) fun _ => T.bind (hT.reportEach _) fun _ => ?_
    exact T.map (hT.report _ _ _) _
  · exact T.pure _

theorem hitTypes {filters : List String} {ds : List Descriptor} (h : ∀ d ∈ ds, g.Has d) :
    T.Of (hitTypes g filters ds) := by
  induction ds with
  | nil => exact T.pure _
  | cons d ds ih =>
    have hrest := ih fun e he => h e (List.mem_cons_of_mem d he)
    exact T.bind (hT.resolve (h d List.mem_cons_self)) fun _ => T.map hrest _

theorem select {types : List Descriptor} {filters : List String} (h : ∀ d ∈ types, g.Has d) :
    T.Of (select g types filters) := by
  refine T.bind (hT.normaliseFilters filters) fun active => ?_
  split
  · exact T.pure _
  · have hhits : T.Of (Selection.hitTypes g active (types.filter (isCandidate g))) :=
      hT.hitTypes fun d hd => h d (List.mem_filter.1 hd).1
    exact T.bind hhits fun _ => T.map (hT.report _ _ _) _

end Trait.Serves

end EmmyStubs
