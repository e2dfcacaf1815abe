import EmmyStubs.Proofs.Conserving
import EmmyStubs.Proofs.Linking

/-! # Generic methods whose arguments can be inferred

    Whether a generic method can be annotated is decided on descriptors, and its record holds
    nothing but texts.

    * **`Members.ConstrainedBy`**: the constraint of a generic argument, as it is annotated.
    * **`Members.Inferable`**: each generic parameter of a record has a constraint, and is the type
      of a parameter of the method, by which a caller binds it.
    * **`Gives.genericParameters`**, **`Gives.stubParameters`**: the texts of a record, as they come
      out of any valid session.
    * **`Members.genericMethods_inferable`**: in an accepted dump all records are inferable,
      whatever was done before, unless a generic parameter is called like a primitive type.
-/

namespace EmmyStubs

variable {g : Graph} {o : Options} {d : Descriptor}

/-! ## §1. Records of generic methods -/

namespace Graph

/-- These are the descriptors of some identities, one by one. -/
abbrev Finds (g : Graph) : List Identity → List Descriptor → Prop :=
  List.Forall₂ fun t d => g.find? t = some d

theorem finds_findAll {ids : List Identity} (h : ∀ t ∈ ids, g.Knows t) :
    g.Finds ids (g.findAll ids) := by
  induction ids with
  | nil => exact .nil
  | cons t ids ih =>
    obtain ⟨d, hd⟩ := Option.isSome_iff_exists.1 (h t List.mem_cons_self)
    have hall : g.findAll (t :: ids) = d :: g.findAll ids := List.filterMap_cons_some hd
    rw [hall]
    exact .cons hd (ih fun u hu => h u (List.mem_cons_of_mem t hu))

end Graph

namespace Members

/-- The constraint of a generic argument: the names of the types that it is bound to, which are
    classes, or any object, where it only has to be a reference. -/
def ConstrainedBy (g : Graph) (argument : Descriptor) (constraint : String) : Prop :=
  (argument.constraints = [] ∧ argument.hasReferenceTypeConstraint = true ∧
    constraint = "System.Object") ∨
  (argument.constraints ≠ [] ∧ ∃ classes, g.Finds argument.constraints classes ∧
    (∀ c ∈ classes, c.isClass = true) ∧
    constraint = ", ".intercalate (classes.map g.qualifiedName))

/-- The constraint that a record has for a generic argument. -/
def constraint? (g : Graph) (argument : Descriptor) : Option String :=
  if argument.constraints.isEmpty then
    if argument.hasReferenceTypeConstraint then some Shape.object else none
  else some (", ".intercalate ((g.findAll argument.constraints).map g.qualifiedName))

/-- The generic parameter of a record stands for a generic argument of the method, and its line
    shows the constraint. -/
structure Stands (g : Graph) (argument : Descriptor) (p : Stub.GenericParameter) : Prop where
  name : p.name = argument.name
  own : argument.isGenericTypeParameter = false
  constrained : ∃ constraint, ConstrainedBy g argument constraint ∧
    p.constraint = some constraint ∧ p.line = "---@generic " ++ p.name ++ " : " ++ constraint

/-- What a record says of a generic method is enough to infer its generic arguments. -/
structure Inferable (g : Graph) (m : Descriptor.Method) (r : Stub.GenericMethod) : Prop where
  key : r.key = groupKey g m
  generics : ∃ arguments, g.Finds m.genericArguments arguments ∧
    List.Forall₂ (Stands g) arguments r.genericParameters
  bound : ∀ p ∈ r.genericParameters, ∃ q ∈ r.parameters, q.type = p.name
  /-- No parameter of the method has a parameter of the type around it as its type. -/
  closed : ∀ q ∈ m.parameters, ∃ t, g.find? q.type = some t ∧ t.isGenericTypeParameter = false

end Members

/-! ## §2. Texts -/

namespace Gives

variable {counted : Prop} {α β : Type} {x : Action α} {a : α} {l : List Identity}

theorem map (hx : Gives g o counted x a l) (k : α → β) :
    Gives g o counted (x >>= fun a => Pure.pure (k a)) (k a) l := by
  have hbind : Gives g o counted (x >>= fun a => Pure.pure (k a)) (k a) (l ++ []) := hx.bind .pure
  rwa [List.append_nil] at hbind

/-- The parameters of a signature. -/
theorem stubParameters {asPart : Bool} {ps : List Descriptor.Parameter}
    (hg : ¬counted → g.Closed) (h : ∀ p ∈ ps, g.Linked (g.annotatedType p)) :
    Gives g o counted (stubParameters g (typeText g o asPart) ps)
      (ps.map fun p => ⟨p.stubName, (g.expr o (g.annotatedType p)).render asPart, p.isOptional,
        p.isVariadic⟩) (ps.map g.annotatedType) := by
  induction ps with
  | nil => exact .pure
  | cons p ps ih =>
    have htext : Gives g o counted (typeText g o asPart (g.annotatedType p)) _ _ :=
      (Gives.mapType hg (h p List.mem_cons_self)).map fun t => t.render asPart
    apply htext.bind
    exact (ih fun q hq => h q (List.mem_cons_of_mem p hq)).map _

theorem resolveAll {ds : List Descriptor} (h : ∀ d ∈ ds, g.Has d) :
    Gives g o counted (Members.resolveAll g ds) (ds.map g.qualifiedName) [] := by
  induction ds with
  | nil => exact .pure
  | cons d ds ih =>
    apply (resolve (h d List.mem_cons_self)).bind
    exact (ih fun e he => h e (List.mem_cons_of_mem d he)).map _

/-- The generic parameters of a record. -/
theorem genericParameters (ds : List Descriptor) :
    Gives g o counted (Members.genericParameters g ds)
      (ds.map fun d => ⟨d.name, Members.constraint? g d⟩) [] := by
  induction ds with
  | nil => exact .pure
  | cons d ds ih =>
    have hfirst : Gives g o counted (Members.genericParameter g d)
        ⟨d.name, Members.constraint? g d⟩ [] := by
      unfold Members.genericParameter Members.constraint?
      cases d.constraints.isEmpty with
      | true => exact .pure
      | false => exact (resolveAll fun _ => Graph.has_of_mem_findAll).map _
    apply hfirst.bind
    exact ih.map _

end Gives

/-! ## §3. Records -/

theorem Descriptor.kind_of_isGenericMethodParameter (h : d.isGenericMethodParameter = true) :
    d.kind = .genericParameter := by
  simp only [Descriptor.isGenericMethodParameter, Descriptor.isGenericParameter, Bool.and_eq_true,
    beq_iff_eq] at h
  exact h.1

namespace Members

/-- A generic parameter of a method is mapped to its name, unless it is taken for a primitive. -/
theorem expr_of_isGenericMethodParameter {t : Identity} {d : Descriptor} (hd : g.find? t = some d)
    (hparameter : d.isGenericMethodParameter = true)
    (hprimitive : Lua.primitive? d.identity = none) : g.expr o t = ⟨d.name, false⟩ := by
  have hkind := Descriptor.kind_of_isGenericMethodParameter hparameter
  rw [Graph.expr, Graph.exprOn_of_find? List.not_mem_nil hd]
  unfold Surroundings.compute
  simp only [hkind, hprimitive, hparameter, reduceCtorEq, ↓reduceIte]
  rfl

/-- A parameter of such a type is annotated with it, variadic or not. -/
theorem annotatedType_of_isGenericMethodParameter {q : Descriptor.Parameter} {d : Descriptor}
    (hd : g.find? q.type = some d) (hparameter : d.isGenericMethodParameter = true) :
    g.annotatedType q = q.type := by
  have hkind := Descriptor.kind_of_isGenericMethodParameter hparameter
  simp [Graph.annotatedType, hd, hkind]

/-- A generic argument that can be annotated has a constraint. -/
theorem stands_of_isAnnotatable (hg : g.Closed) {argument : Descriptor} (hd : g.Has argument)
    {types : List Descriptor} (h : g.isAnnotatable types argument = true) :
    Stands g argument ⟨argument.name, constraint? g argument⟩ := by
  simp only [Graph.isAnnotatable, Bool.and_eq_true, Bool.not_eq_true', Bool.or_eq_true,
    List.all_eq_true, List.isEmpty_eq_false_iff] at h
  obtain ⟨⟨⟨hown, hclasses⟩, hbound⟩, -⟩ := h
  apply Stands.mk rfl hown
  by_cases hempty : argument.constraints = []
  · have hreference : argument.hasReferenceTypeConstraint = true :=
      hbound.resolve_left fun hne => hne hempty
    apply Exists.intro "System.Object"
    have hconstraint : constraint? g argument = some "System.Object" := by
      simp [constraint?, hempty, hreference, Shape.object]
    rw [hconstraint]
    exact ⟨.inl ⟨hempty, hreference, rfl⟩, rfl, rfl⟩
  · have hknown : ∀ t ∈ argument.constraints, g.Knows t := by
      intro t ht
      apply hg t
      exact ⟨argument, hd, by simp [Descriptor.links, ht]⟩
    apply Exists.intro (", ".intercalate ((g.findAll argument.constraints).map g.qualifiedName))
    have hconstraint : constraint? g argument =
        some (", ".intercalate ((g.findAll argument.constraints).map g.qualifiedName)) := by
      simp [constraint?, hempty]
    rw [hconstraint]
    exact ⟨.inr ⟨hempty, _, Graph.finds_findAll hknown, hclasses, rfl⟩, rfl, rfl⟩

/-- The name of a generic argument that can be annotated is the text of some parameter's type. -/
theorem exists_parameter_of_isAnnotatable
    (hprimitive : ∀ d, g.Has d → d.isGenericParameter = true → Lua.primitive? d.identity = none)
    {ps : List Descriptor.Parameter} {argument : Descriptor}
    (h : g.isAnnotatable (g.findAll (ps.map (·.type))) argument = true) :
    ∃ q ∈ ps, (g.expr o (g.annotatedType q)).render false = argument.name := by
  simp only [Graph.isAnnotatable, Bool.and_eq_true, List.any_eq_true, beq_iff_eq] at h
  obtain ⟨-, d, hd, hparameter, hname⟩ := h
  obtain ⟨t, ht, hfound⟩ := List.mem_filterMap.1 hd
  obtain ⟨q, hq, rfl⟩ := List.mem_map.1 ht
  have hgeneric : d.isGenericParameter = true := by
    simp only [Descriptor.isGenericMethodParameter, Bool.and_eq_true] at hparameter
    exact hparameter.1
  have hnone := hprimitive d (Graph.has_of_find? hfound) hgeneric
  apply Exists.intro q
  apply And.intro hq
  rw [annotatedType_of_isGenericMethodParameter hfound hparameter,
    expr_of_isGenericMethodParameter hfound hparameter hnone]
  exact hname

/-- The record of a method that can be annotated is inferable. -/
theorem inferable_of_signed (hg : g.Closed)
    (hprimitive : ∀ d, g.Has d → d.isGenericParameter = true → Lua.primitive? d.identity = none)
    {graphs : List Graph} {s : Session} (hs : s.Reachable o graphs) (haccords : g.Accords o graphs)
    {m : Descriptor.Method} {r : Stub.GenericMethod}
    (hlinks : ∀ t ∈ m.links, g.Linked t) (h : g.isSupportedGeneric m = true)
    (hsigned : GenericSigned g o s m r) : Inferable g m r := by
  simp only [Graph.isSupportedGeneric, Bool.and_eq_true, Bool.not_eq_true', List.any_eq_false,
    List.all_eq_true] at h
  obtain ⟨⟨-, hopen⟩, hannotatable⟩ := h
  have hgenerics : r.genericParameters = (g.findAll m.genericArguments).map fun d =>
      ⟨d.name, constraint? g d⟩ := 
      hsigned.generics.eq_of_gives (fun _ _ => .genericParameters _) hs haccords
  have hparameters : r.parameters = m.parameters.map fun p => ⟨p.stubName,
      (g.expr o (g.annotatedType p)).render false, p.isOptional, p.isVariadic⟩ := by
    obtain ⟨t, ht, hreturns⟩ := hsigned.signed.returns
    have hlinked : ∀ p ∈ m.parameters, g.Linked (g.annotatedType p) := by
      intro p hp
      apply Graph.linked_of_signature hlinks
      exact List.mem_append_left _ (List.mem_map_of_mem hp)
    unfold signature at hreturns
    rw [Action.run_bind, Action.run_bind] at hreturns
    have hfirst : (stubParameters g (typeText g o false) m.parameters).Returns g o s r.parameters :=
      ⟨t, ht, congrArg Prod.fst hreturns⟩
    exact hfirst.eq_of_gives (fun _ hc => .stubParameters hc hlinked) hs haccords
  have hknown : ∀ t ∈ m.genericArguments, g.Knows t := by
    intro t ht
    apply hg t
    exact hlinks t (by simp [Descriptor.Method.links, ht])
  apply Inferable.mk hsigned.key
  · apply Exists.intro (g.findAll m.genericArguments)
    apply And.intro (Graph.finds_findAll hknown)
    rw [hgenerics, List.forall₂_map_right_iff, List.forall₂_same]
    intro argument hargument
    exact stands_of_isAnnotatable hg (Graph.has_of_mem_findAll hargument)
      (hannotatable argument hargument)
  · intro p hp
    rw [hgenerics] at hp
    obtain ⟨argument, hargument, rfl⟩ := List.mem_map.1 hp
    obtain ⟨q, hq, htext⟩ :=
      exists_parameter_of_isAnnotatable (o := o) hprimitive (hannotatable argument hargument)
    rw [hparameters]
    exact ⟨_, List.mem_map_of_mem hq, htext⟩
  · intro q hq
    have htype : g.Linked q.type := by
      apply hlinks
      simp only [Descriptor.Method.links, List.mem_append, List.mem_flatMap]
      exact .inl (.inl ⟨q, hq, List.mem_singleton_self _⟩)
    obtain ⟨d, hd⟩ := Option.isSome_iff_exists.1 (hg _ htype)
    have hmem : d ∈ g.findAll (m.parameters.map (·.type)) :=
      List.mem_filterMap.2 ⟨q.type, List.mem_map_of_mem hq, hd⟩
    exact ⟨d, hd, Bool.eq_false_iff.2 (hopen d hmem)⟩

/-! ## §4. Accepted dumps -/

/-- In an accepted dump whose generic parameters are not called like primitive types, every record
    of a generic method is inferable, whatever was done on the session before with the dump, or
    with others that leave nothing wrong about it. -/
theorem genericMethods_inferable {defaultName : String} {source : Option String}
    {es : Dump.Entries} {dump : Dump} (h : Dump.ofEntries defaultName source es = .ok dump)
    (hprimitive : ∀ d, dump.graph.Has d → d.isGenericParameter = true →
      Lua.primitive? d.identity = none)
    {o : Options} {graphs : List Graph} {s : Session} (hs : s.Reachable o graphs)
    (haccords : dump.graph.Accords o graphs) {d : Descriptor} (hd : dump.graph.Has d)
    (ancestors : Bool) :
    List.Forall₂ (Inferable dump.graph)
      ((candidateMethods dump.graph d ancestors).filter (isAnnotated dump.graph))
      ((genericMethods dump.graph o d ancestors).run s).1 := by
  obtain ⟨-, hlink, -⟩ := Dump.ofEntries_eq_ok.1 h
  have hclosed := (Dump.whole_of_link hlink).closed
  have hsigned : List.Forall₂ (GenericSigned dump.graph o s) _
      ((genericMethods dump.graph o d ancestors).run s).1 := genericMethods_signed hd
  have hmethods : ∀ m ∈ (candidateMethods dump.graph d ancestors).filter (isAnnotated dump.graph),
      (∀ t ∈ m.links, dump.graph.Linked t) ∧ dump.graph.isSupportedGeneric m = true := by
    intro m hm
    obtain ⟨hmem, hannotated⟩ := List.mem_filter.1 hm
    simp only [isAnnotated, Bool.and_eq_true] at hannotated
    exact ⟨refers_candidateMethods hd m hmem, hannotated.2⟩
  apply ((List.forall₂_and_left _ _).2 ⟨hmethods, hsigned⟩).imp
  intro m r hr
  exact inferable_of_signed hclosed hprimitive hs haccords hr.1.1 hr.1.2 hr.2

/-- A dump with a generic method.  One of its generic arguments is bound to a class, the other one
    only has to be a reference, and is the type of a variadic parameter. -/
def swapEntries : Dump.Entries :=
  [(.str "types", .list [
    .map [(.str "id", .str "Shop.Till"), (.str "methods", .list [
      .map [(.str "name", .str "Swap"),
        (.str "parameters", .list [
          .map [(.str "name", .str "one"), (.str "type", .str "U")],
          .map [(.str "name", .str "more"), (.str "type", .str "T"),
            (.str "variadic", .bool true)]]),
        (.str "generic_arguments", .list [.str "T", .str "U"])]])],
    .map [(.str "id", .str "T"), (.str "kind", .str "generic_parameter"),
      (.str "generic_parameter", .map [(.str "method", .bool true),
        (.str "reference_type", .bool true)])],
    .map [(.str "id", .str "U"), (.str "kind", .str "generic_parameter"),
      (.str "generic_parameter", .map [(.str "method", .bool true),
        (.str "constraints", .list [.str "Shop.Item"])])],
    .map [(.str "id", .str "Shop.Item")]])]

/-- What is left when the type of a parameter has been mapped. -/
def swapSession (g : Graph) : Session :=
  Session.start.after g {} [.map "T"]

/-- What the records of a type say of its generic methods. -/
def swapRecords (g : Graph) (d : Descriptor) : List Stub.GenericMethod :=
  ((genericMethods g {} d false).run (swapSession g)).1

theorem swapEntries_inferable : ∃ dump d,
    Dump.ofEntries "Shop" none swapEntries = .ok dump ∧ dump.graph.find? "Shop.Till" = some d ∧
    (∀ e, dump.graph.Has e → e.isGenericParameter = true → Lua.primitive? e.identity = none) ∧
    (swapSession dump.graph).Reachable {} [dump.graph] ∧
    (swapRecords dump.graph d).map (fun r => (r.genericParameters, r.parameters.map (·.type)))
      = [([⟨"T", some "System.Object"⟩, ⟨"U", some "Shop.Item"⟩], ["U", "T"])] ∧
    List.Forall₂ (Inferable dump.graph)
      ((candidateMethods dump.graph d false).filter (isAnnotated dump.graph))
      (swapRecords dump.graph d) := by
  have hfacts : (Dump.ofEntries "Shop" none swapEntries).toOption.map (fun dump =>
      ((dump.graph.find? "Shop.Till").map fun d => (swapRecords dump.graph d).map fun r =>
          (r.genericParameters, r.parameters.map (·.type)),
        dump.graph.descriptors.all fun e =>
          !e.isGenericParameter || (Lua.primitive? e.identity).isNone))
      = some (some [([⟨"T", some "System.Object"⟩, ⟨"U", some "Shop.Item"⟩], ["U", "T"])], true) :=
    by decide +kernel
  obtain ⟨dump, hdump, hfacts⟩ := Option.map_eq_some_iff.1 hfacts
  rw [toOption_eq_some_iff] at hdump
  obtain ⟨hrecords, hall⟩ := Prod.mk.inj hfacts
  obtain ⟨d, hd, hrecords⟩ := Option.map_eq_some_iff.1 hrecords
  have hprimitive : ∀ e, dump.graph.Has e → e.isGenericParameter = true →
      Lua.primitive? e.identity = none := by
    intro e he hparameter
    have hone := List.all_eq_true.1 hall e (Graph.mem_of_find? he)
    simpa [hparameter] using hone
  have hs : (swapSession dump.graph).Reachable {} [dump.graph] :=
    .of_chores (by simp [Chore.Within])
  exact ⟨dump, d, hdump, hd, hprimitive, hs, hrecords,
    genericMethods_inferable hdump hprimitive hs .self (Graph.has_of_find? hd) false⟩

end Members

end EmmyStubs
