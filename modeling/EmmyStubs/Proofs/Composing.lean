import EmmyStubs.Proofs.Links
import EmmyStubs.Proofs.Resolving

/-! # Expressions of references

    Where nothing that a reference is made of is described, its expression follows its structure.

    * **`Reference.expr`**: the expression of a reference, from those of its parts.
    * **`Bare`**: nothing is known of the members of a type, as it is of every external one.
    * **`Found`**: a graph has what the parts of a reference describe.  There the qualified name of
      a named type is the one that is spelled (`qualifiedName_of_found`).
    * **`compute_named`**, **`compute_element`**, **`compute_instantiation`**: then the mapper makes
      the expression of each type from those of its parts in the same way.
-/

namespace EmmyStubs.Dump

open EmmyStubs.Text

/-! ## §1. The expression of a reference -/

/-- The name with points for plus signs. -/
def Name.pointed (n : Name) : String :=
  String.ofList (n.print.map fun c => if c = '+' then '.' else c)

def Name.expr (n : Name) : TypeExpr :=
  if n.identity ∈ Form.voids then ⟨"", false⟩
  else
    match Lua.primitive? n.identity with
    | some token => ⟨token, false⟩
    | none => if n.IsGeneric then ⟨Lua.userdata, false⟩ else ⟨n.pointed, false⟩

/-- A generic type without a shape of its own; what can be iterated is said to be so. -/
def iterated (o : Options) (definition : Identity) (first : TypeExpr) : TypeExpr :=
  if definition ∈ Shape.enumerables ++ Shape.enumerators then
    match o.style with
    | .function => ⟨"userdata | (fun(): " ++ first.text ++ ")", true⟩
    | .table => ⟨"userdata | \x7b [nil]: " ++ first.text ++ " \x7d", true⟩
  else ⟨Lua.userdata, false⟩

/-- A generic type with some arguments: an optional value, a list, a table, or neither. -/
def instantiated (o : Options) (definition : Identity) : List TypeExpr → TypeExpr
  | [] => ⟨Lua.userdata, false⟩
  | first :: rest =>
    if definition = Shape.nullable then ⟨first.render true ++ "|nil", true⟩
    else if definition ∈ Shape.lists ++ o.listShapes then ⟨first.render true ++ "[]", false⟩
    else
      match rest with
      | [] => iterated o definition first
      | second :: _ =>
        if definition ∈ Shape.dictionaries ++ o.dictionaryShapes then
          ⟨Lua.tableType first.text second.text, false⟩
        else iterated o definition first

mutual

/-- The expression of a reference nothing of which is described. -/
def Reference.expr (o : Options) : Reference → TypeExpr
  | .named name => name.expr
  | .array element _ => ⟨(element.expr o).render true ++ "[]", false⟩
  | .byRef element => element.expr o
  | .instantiation definition _ arguments =>
    instantiated o definition.identity (arguments.exprs o)

def Arguments.exprs (o : Options) : Arguments → List TypeExpr
  | .last _ argument => [argument.expr o]
  | .next _ argument rest => argument.expr o :: rest.exprs o

end

theorem exprs_eq_map (o : Options) (a : Arguments) : a.exprs o = a.toList.map (·.expr o) := by
  cases a with
  | last style t => rfl
  | next style t rest =>
    rw [Arguments.exprs, exprs_eq_map o rest]
    rfl

/-! ## §2. Types without a name -/

section

variable {g : Graph} {o : Options} {answer : Identity → TypeExpr} {d : Descriptor}

/-- What is known of a type when there is only its identity: nothing of its members. -/
structure Bare (d : Descriptor) : Prop where
  base : d.base = none
  interfaces : d.interfaces = []
  properties : d.properties = []

theorem Bare.hierarchy (h : Bare d) : g.hierarchy d = [d] := by
  rw [Graph.hierarchy, h.base, Graph.chain_none]

/-- Such a type implements nothing but itself. -/
theorem Bare.implementation? (h : Bare d) (shapes : List Identity) :
    g.implementation? shapes d = if Shape.isOneOf shapes d then some d else none := by
  have hinside : g.findAll [] = [] := rfl
  rw [Graph.implementation?, h.hierarchy, List.findSome?_singleton, h.interfaces, hinside,
    List.find?_singleton]

theorem Bare.iteration (h : Bare d) (shapes : List Identity) :
    (Surroundings.plain g o answer).iteration shapes d =
      if Shape.isOneOf shapes d then
        d.genericArguments.head?.toList.map fun a =>
          Surroundings.sequence o.style (answer a).text
      else [] := by
  have himplements : (Surroundings.plain g o answer).graph.implementation? shapes d = _ :=
    h.implementation? (g := g) shapes
  rw [Surroundings.iteration, himplements]
  by_cases hshape : Shape.isOneOf shapes d = true
  · rw [if_pos hshape, if_pos hshape, Option.bind_some]
    cases d.genericArguments with
    | nil => rfl
    | cons a rest => rfl
  · rw [if_neg hshape, if_neg hshape]
    rfl

/-- A value of unknown shape, or what it gives when it is iterated. -/
theorem union_sequence (style : EnumerableStyle) (item : String) :
    (Union.empty.addAll [⟨Lua.userdata, false⟩, Surroundings.sequence style item]).toExpr =
      match style with
      | .function => ⟨"userdata | (fun(): " ++ item ++ ")", true⟩
      | .table => ⟨"userdata | \x7b [nil]: " ++ item ++ " \x7d", true⟩ := by
  have hnew : ("userdata" == (Surroundings.sequence style item).text) = false := by
    rw [beq_eq_false_iff_ne]
    intro heq
    have hchars := congrArg String.toList heq
    cases style with
    | function => simp [Surroundings.sequence] at hchars
    | table => simp [Surroundings.sequence, Lua.tableType] at hchars
  have hunion : Union.empty.addAll [⟨Lua.userdata, false⟩, Surroundings.sequence style item]
      = ⟨[⟨Lua.userdata, false⟩, Surroundings.sequence style item]⟩ := by
    simp [Union.addAll, Union.add, Union.empty, Lua.userdata, hnew]
  rw [hunion]
  rw [Union.toExpr, TypeExpr.mk.injEq]
  cases style with
  | function =>
    refine ⟨?_, rfl⟩
    rw [← String.toList_inj]
    simp [Surroundings.sequence, TypeExpr.render, Lua.userdata]
  | table =>
    refine ⟨?_, rfl⟩
    rw [← String.toList_inj]
    simp [Surroundings.sequence, TypeExpr.render, Lua.userdata, Lua.tableType]

/-- A type of unknown shape, that is iterated where its definition says so. -/
theorem Bare.composite (h : Bare d) :
    (Surroundings.plain g o answer).composite d =
      match d.definition, d.genericArguments with
      | some definition, a :: _ => iterated o definition (answer a)
      | _, _ => ⟨Lua.userdata, false⟩ := by
  have hindexers : ((Surroundings.plain g o answer).graph.hierarchy d).flatMap (·.properties)
      = [] := by
    show (g.hierarchy d).flatMap (·.properties) = []
    rw [h.hierarchy, List.flatMap_singleton, h.properties]
  rw [Surroundings.composite, hindexers, h.iteration, h.iteration]
  cases hdefinition : d.definition with
  | none =>
    have hshape : ∀ shapes, ¬Shape.isOneOf shapes d = true := by
      intro shapes
      simp [Shape.isOneOf, hdefinition]
    rw [if_neg (hshape _), if_neg (hshape _)]
    rfl
  | some definition =>
    have hshape : ∀ shapes, Shape.isOneOf shapes d = true ↔ definition ∈ shapes := by
      intro shapes
      simp [Shape.isOneOf, hdefinition]
    cases harguments : d.genericArguments with
    | nil =>
      show (Union.empty.addAll (⟨Lua.userdata, false⟩ :: (if _ then [] else []) ++
        (if _ then [] else []))).toExpr = _
      rw [ite_self, ite_self]
      rfl
    | cons a rest =>
      have hsequence := union_sequence o.style (answer a).text
      by_cases hitems : definition ∈ Shape.enumerables
      · have hsteps : definition ∉ Shape.enumerators := by
          rw [List.mem_singleton.1 hitems]
          decide
        rw [if_pos ((hshape _).2 hitems), if_neg fun hs => hsteps ((hshape _).1 hs)]
        show _ = iterated o definition (answer a)
        rw [iterated, if_pos (List.mem_append_left _ hitems), ← hsequence]
        rfl
      · rw [if_neg fun hs => hitems ((hshape _).1 hs)]
        show _ = iterated o definition (answer a)
        by_cases hsteps : definition ∈ Shape.enumerators
        · rw [if_pos ((hshape _).2 hsteps), iterated, if_pos (List.mem_append_right _ hsteps),
            ← hsequence]
          rfl
        · have hneither : definition ∉ Shape.enumerables ++ Shape.enumerators := by
            simp [hitems, hsteps]
          rw [if_neg fun hs => hsteps ((hshape _).1 hs), iterated, if_neg hneither]
          rfl

/-- A type with a name has it for its expression; without one it is of unknown shape. -/
theorem Bare.named (h : Bare d) (hdefinition : d.definition = none) :
    (Surroundings.plain g o answer).named d = ⟨g.qualifiedName d, false⟩ := by
  show (if g.qualifiedName d = Lua.userdata then (Surroundings.plain g o answer).composite d
    else ⟨g.qualifiedName d, false⟩ : TypeExpr) = _
  by_cases hname : g.qualifiedName d = Lua.userdata
  · rw [if_pos hname, h.composite, hdefinition, hname]
  · rw [if_neg hname]

end

/-! ## §3. Names -/

/-- The names of a type and of the types around it, the outermost first. -/
def Name.nesting : Name → List (List Char)
  | .top _ own => [own.text]
  | .nested outer own => outer.nesting ++ [own.text]

/-- The namespace and these names, joined by points. -/
theorem Name.dotted_nesting (n : Name) :
    dotted ((if n.space = [] then [] else [dotted (n.space.map (·.text))]) ++ n.nesting)
      = n.print.map fun c => if c = '+' then '.' else c := by
  have hkeep : ∀ s : List Char, '+' ∉ s → s.map (fun c => if c = '+' then '.' else c) = s := by
    intro s hs
    refine (List.map_congr_left fun c hc => ?_).trans (List.map_id s)
    exact if_neg fun heq : c = '+' => hs (heq ▸ hc)
  have hnesting : ∀ m : Name, m.nesting ≠ [] := by
    intro m
    cases m with
    | top space own => simp [nesting]
    | nested outer own => simp [nesting]
  induction n with
  | top space own =>
    rw [hkeep _ (Name.plus_notMem_top space own)]
    cases space with
    | nil => rfl
    | cons w space =>
      have hspace : (top (w :: space) own).space ≠ [] := List.cons_ne_nil w space
      rw [if_neg hspace, nesting, print, dotted_append (by simp), dotted_append (by simp)]
      simp [Name.space, dotted]
  | nested outer own ih =>
    have hpoint : (own.text.map fun c => if c = '+' then '.' else c) = own.text :=
      hkeep own.text own.plus_notMem
    rw [nesting, ← List.append_assoc, dotted_append (by simp [hnesting]), print, List.map_append,
      ← ih, List.map_cons, if_pos rfl, hpoint]
    rfl

/-- No name within the reference is nested in the type that returns nothing, where that is spelled
    as a keyword. -/
def Reference.NotInVoid (t : Reference) : Prop :=
  ∀ outer own, t.Contains (.named (.nested outer own)) → outer.identity ≠ "void"

/-- The graph has what the parts of a reference describe. -/
def Found (g : Graph) (t : Reference) : Prop :=
  ∀ u, t.Contains u → ∃ d, g.find? u.identity = some d ∧ u.Describes d

section

variable {g : Graph} {t u : Reference}

theorem Reference.NotInVoid.part (h : t.NotInVoid) (hu : u ∈ t.parts) : u.NotInVoid :=
  fun outer own hcontains => h outer own (.part hu hcontains)

theorem Found.part (h : Found g t) (hu : u ∈ t.parts) : Found g u :=
  fun v hv => h v (.part hu hv)

/-- Of a named type the descriptor tells its own name and the type around it. -/
theorem name_of_describes {n : Name} {d : Descriptor} (h : (Reference.named n).Describes d)
    (hvoid : n.identity ≠ "void") :
    d.name = String.ofList n.own.text ∧ d.declaring = n.outer?.map Name.identity := by
  unfold Reference.Describes at h
  dsimp only at h
  by_cases hmem : n.identity ∈ Form.voids
  · rw [if_pos hmem] at h
    have hdotted : n.identity = "System.Void" := by
      rcases List.mem_cons.1 hmem with hkeyword | hrest
      · exact absurd hkeyword hvoid
      · exact List.mem_singleton.1 hrest
    -- The name of the type is the last one of its identity.
    have hown : n.own.text = "Void".toList := by
      have hprint : n.print = "System.Void".toList := by
        rw [← hdotted, Name.identity, String.toList_ofList]
      rw [← n.simpleName_print, hprint]
      decide
    rw [h, hown, Name.outer?_of_mem_voids hmem, String.ofList_toList]
    exact ⟨rfl, rfl⟩
  · rw [if_neg hmem] at h
    rw [h]
    exact ⟨rfl, rfl⟩

theorem Name.mem_parts_nested (outer : Name) (own : Segment) :
    Reference.named outer ∈ (Reference.named (nested outer own)).parts :=
  List.mem_cons_self

/-- The chain of types around a type begins with the type, and goes on with the one it is nested
    in. -/
theorem map_name_chain {n : Name} (hfound : Found g (.named n)) (hvoid : n.identity ≠ "void")
    {seen : List Identity} (hseen : ∀ w ∈ seen, n.identity.toList.length < w.toList.length) :
    (g.chain (·.declaring) seen (some n.identity)).map (·.name) = String.ofList n.own.text ::
      (g.chain (·.declaring) (n.identity :: seen) (n.outer?.map Name.identity)).map (·.name) := by
  obtain ⟨d, hd, hdescribes⟩ := hfound _ (.refl _)
  rw [Reference.identity_named] at hd
  obtain ⟨hname, hdeclaring⟩ := name_of_describes hdescribes hvoid
  have hn : n.identity ∉ seen := fun hmem => Nat.lt_irrefl _ (hseen _ hmem)
  rw [Graph.chain_of_find? hn hd, List.map_cons, hname, hdeclaring]

/-- The types around a nested one have the names that are spelled in front of its own. -/
theorem names_around (n : Name) (hfound : Found g (.named n))
    (hplain : (Reference.named n).NotInVoid) {seen : List Identity}
    (hseen : ∀ w ∈ seen, n.identity.toList.length ≤ w.toList.length) :
    ((g.chain (·.declaring) seen (n.outer?.map Name.identity)).map (·.name)).reverse
      ++ [String.ofList n.own.text] = n.nesting.map String.ofList := by
  induction n generalizing seen with
  | top space own =>
    have hnone : (Name.top space own).outer?.map Name.identity = none := rfl
    rw [hnone, Graph.chain_none, List.map_nil, List.reverse_nil, List.nil_append, Name.nesting,
      List.map_singleton, Name.own]
  | nested outer own ih =>
    have hpart := Name.mem_parts_nested outer own
    have hshorter := Reference.length_part_lt hpart
    rw [Reference.identity_named, Reference.identity_named] at hshorter
    have houter : (Name.nested outer own).outer?.map Name.identity = some outer.identity := rfl
    -- The types met so far have longer identities than the one around them all.
    have hlonger : ∀ w ∈ seen, outer.identity.toList.length < w.toList.length :=
      fun w hw => Nat.lt_of_lt_of_le hshorter (hseen w hw)
    have hseen' : ∀ w ∈ outer.identity :: seen,
        outer.identity.toList.length ≤ w.toList.length :=
      List.forall_mem_cons.2 ⟨Nat.le_refl _, fun w hw => Nat.le_of_lt (hlonger w hw)⟩
    rw [houter, map_name_chain (hfound.part hpart) (hplain outer own (.refl _)) hlonger,
      List.reverse_cons, ih (hfound.part hpart) (hplain.part hpart) hseen', Name.nesting,
      List.map_append, List.map_singleton, Name.own]

/-- The names around a type and its own. -/
theorem names_of_found {n : Name} {d : Descriptor} (hfound : Found g (.named n))
    (hplain : (Reference.named n).NotInVoid) (hvoid : n.identity ≠ "void")
    (hdescribes : (Reference.named n).Describes d) :
    (g.declaringChain d).map (·.name) ++ [d.name] = n.nesting.map String.ofList := by
  obtain ⟨hname, hdeclaring⟩ := name_of_describes hdescribes hvoid
  rw [Graph.declaringChain, List.map_reverse, hdeclaring, hname]
  exact names_around n hfound hplain fun w hw => absurd hw (by simp)

/-- A name without a backtick is the qualified name, once the plus signs are points. -/
theorem qualifiedName_of_found {n : Name} {d : Descriptor} (hfound : Found g (.named n))
    (hplain : (Reference.named n).NotInVoid) (hvoid : n.identity ∉ Form.voids)
    (hgeneric : ¬n.IsGeneric) (hdescribes : (Reference.named n).Describes d) :
    g.qualifiedName d = n.pointed := by
  have hkeyword : n.identity ≠ "void" := fun heq => hvoid (heq ▸ List.mem_cons_self)
  have hnames := names_of_found hfound hplain hkeyword hdescribes
  unfold Reference.Describes at hdescribes
  dsimp only at hdescribes
  rw [if_neg hvoid] at hdescribes
  have hspace : d.space?.toList.map String.toList
      = if n.space = [] then [] else [dotted (n.space.map (·.text))] := by
    have hgiven : d.space = n.space? := by rw [hdescribes]
    rw [Descriptor.space?, hgiven, Name.space?]
    by_cases hspace : n.space = []
    · rw [if_pos hspace, if_pos hspace]
      rfl
    · have hfilled : (String.ofList (dotted (n.space.map (·.text))) != "") = true := by
        simpa using Name.dotted_ne_nil hspace
      rw [if_neg hspace, if_neg hspace, Option.filter_some, if_pos hfilled]
      simp
  have hplainName : ¬d.isGeneric = true := by
    rw [hdescribes]
    simpa using hgeneric
  rw [Graph.qualifiedName, if_neg hplainName, List.append_assoc, hnames, ← String.toList_inj,
    String.toList_intercalate, List.map_append, hspace, List.map_map]
  have hnesting : n.nesting.map (String.toList ∘ String.ofList) = n.nesting := by
    simp [Function.comp_def]
  rw [hnesting]
  show dotted _ = n.pointed.toList
  rw [n.dotted_nesting, Name.pointed, String.toList_ofList]

/-! ## §5. Expressions made of expressions -/

variable {o : Options} {answer : Identity → TypeExpr} {d : Descriptor}

/-- No primitive type is spelled with a bracket or an ampersand. -/
theorem primitive?_eq_none {id : Identity} (h : '[' ∈ id.toList ∨ '&' ∈ id.toList) :
    Lua.primitive? id = none := by
  have hprimitives : ∀ e ∈ Lua.primitives, '[' ∉ e.1.toList ∧ '&' ∉ e.1.toList := by decide
  rw [Lua.primitive?, Option.map_eq_none_iff, List.find?_eq_none]
  intro e he heq
  have hid : e.1 = id := by simpa using heq
  rw [← hid] at h
  rcases h with h | h
  · exact (hprimitives e he).1 h
  · exact (hprimitives e he).2 h

/-- A class that is no primitive type is an optional value, or an instantiation, or has a name. -/
theorem compute_class (hkind : d.kind = .cls) (hprimitive : Lua.primitive? d.identity = none) :
    (Surroundings.plain g o answer).compute d =
      match d.nullableUnderlying? with
      | some u => ⟨(answer u).render true ++ "|nil", true⟩
      | none => (Surroundings.plain g o answer).instantiation d := by
  have hvoid : d.kind ≠ .void := by simp [hkind]
  have hparameter : ¬d.isGenericMethodParameter = true := by
    simp [Descriptor.isGenericMethodParameter, Descriptor.isGenericParameter, hkind]
  have hdelegate : ¬(d.kind = .delegate ∧ d.identity ∉ Shape.delegateRoots) := by simp [hkind]
  rw [Surroundings.compute, if_neg hvoid, hprimitive]
  dsimp only
  rw [if_neg hparameter, if_neg hdelegate, hkind]
  rfl

/-- A class with neither a definition nor arguments has its qualified name for its expression. -/
theorem Bare.compute_class (h : Bare d) (hkind : d.kind = .cls)
    (hprimitive : Lua.primitive? d.identity = none) (hdefinition : d.definition = none)
    (harguments : d.genericArguments = []) :
    (Surroundings.plain g o answer).compute d = ⟨g.qualifiedName d, false⟩ := by
  have hnull : d.nullableUnderlying? = none := by
    simp [Descriptor.nullableUnderlying?, hkind, hdefinition]
  rw [Dump.compute_class hkind hprimitive, hnull]
  dsimp only
  rw [Surroundings.instantiation, harguments]
  exact h.named hdefinition

theorem compute_named {n : Name} (hfound : Found g (.named n))
    (hplain : (Reference.named n).NotInVoid) (hdescribes : (Reference.named n).Describes d) :
    (Surroundings.plain g o answer).compute d = n.expr := by
  have hqualified := qualifiedName_of_found hfound hplain (d := d)
  unfold Reference.Describes at hdescribes hqualified
  dsimp only at hdescribes hqualified
  rw [Name.expr]
  by_cases hvoid : n.identity ∈ Form.voids
  · rw [if_pos hvoid] at hdescribes
    have hkind : d.kind = .void := by rw [hdescribes]
    rw [Surroundings.compute, if_pos hkind, if_pos hvoid]
    rfl
  have hnamed := hdescribes
  rw [if_neg hvoid] at hnamed
  have hid : d.identity = n.identity := by rw [hnamed, Reference.identity_named]
  have hkind : d.kind = .cls := by rw [hnamed]
  rw [if_neg hvoid, ← hid]
  cases hprimitive : Lua.primitive? d.identity with
  | some token =>
    have hnovoid : d.kind ≠ .void := by simp [hkind]
    rw [Surroundings.compute, if_neg hnovoid, hprimitive]
    rfl
  | none =>
    have hbare : Bare d := by
      rw [hnamed]
      exact ⟨rfl, rfl, rfl⟩
    have hgeneric : d.isGeneric = decide n.IsGeneric := by rw [hnamed]
    rw [hbare.compute_class hkind hprimitive (by rw [hnamed]) (by rw [hnamed])]
    by_cases hbacktick : n.IsGeneric
    · rw [if_pos hbacktick, Graph.qualifiedName, if_pos (hgeneric.trans (decide_eq_true hbacktick))]
    · rw [if_neg hbacktick, hqualified hvoid hbacktick hdescribes]

theorem Arguments.exists_cons (a : Arguments) : ∃ first rest, a.toList = first :: rest := by
  cases a with
  | last style t => exact ⟨t, [], rfl⟩
  | next style t rest => exact ⟨t, rest.toList, rfl⟩

/-- Only an instantiation of the optional type is an optional value. -/
theorem nullableUnderlying?_eq {definition first : Identity} {rest : List Identity}
    (hkind : d.kind = .cls) (hdefinition : d.definition = some definition)
    (harguments : d.genericArguments = first :: rest) :
    d.nullableUnderlying? = if definition = Shape.nullable then some first else none := by
  by_cases hnull : definition = Shape.nullable
  · simp [Descriptor.nullableUnderlying?, hkind, hdefinition, hnull, harguments]
  · simp [Descriptor.nullableUnderlying?, hkind, hdefinition, hnull]

/-- A generic type that is not optional is a list or a table, or of unknown shape. -/
theorem Bare.instantiation (h : Bare d) {definition first : Identity} {rest : List Identity}
    (hgeneric : d.isGeneric = true) (hdefinition : d.definition = some definition)
    (harguments : d.genericArguments = first :: rest) (hnull : definition ≠ Shape.nullable) :
    (Surroundings.plain g o answer).instantiation d
      = instantiated o definition (answer first :: rest.map answer) := by
  have hshape : ∀ shapes, Shape.isOneOf shapes d = true ↔ definition ∈ shapes := by
    intro shapes
    simp [Shape.isOneOf, hdefinition]
  -- A generic type has no name, so what remains is of unknown shape or can be iterated.
  have hnamed : (Surroundings.plain g o answer).named d = iterated o definition (answer first) := by
    have hname : g.qualifiedName d = Lua.userdata := by rw [Graph.qualifiedName, if_pos hgeneric]
    show (if g.qualifiedName d = Lua.userdata then (Surroundings.plain g o answer).composite d
      else ⟨g.qualifiedName d, false⟩ : TypeExpr) = _
    rw [if_pos hname, h.composite, hdefinition, harguments]
  unfold instantiated
  dsimp only
  rw [Surroundings.instantiation, harguments, if_neg hnull]
  dsimp only
  by_cases hlist : definition ∈ Shape.lists ++ o.listShapes
  · have hisList : (Surroundings.plain g o answer).options.isList d = true := (hshape _).2 hlist
    rw [if_pos hisList, if_pos hlist]
    rfl
  have hisList : ¬(Surroundings.plain g o answer).options.isList d = true :=
    fun h => hlist ((hshape _).1 h)
  rw [if_neg hisList, if_neg hlist]
  cases rest with
  | nil => exact hnamed
  | cons second rest =>
    simp only [List.map_cons]
    by_cases htable : definition ∈ Shape.dictionaries ++ o.dictionaryShapes
    · have hisTable : (Surroundings.plain g o answer).options.isDictionary d = true :=
        (hshape _).2 htable
      rw [if_pos hisTable, if_pos htable]
      rfl
    · have hisTable : ¬(Surroundings.plain g o answer).options.isDictionary d = true :=
        fun h => htable ((hshape _).1 h)
      rw [if_neg hisTable, if_neg htable]
      exact hnamed

theorem compute_instantiation {n : Name} {hn : n.IsGeneric} {a : Arguments}
    (hdescribes : (Reference.instantiation n hn a).Describes d)
    (hanswer : ∀ u ∈ a.toList, answer u.identity = u.expr o) :
    (Surroundings.plain g o answer).compute d = instantiated o n.identity (a.exprs o) := by
  obtain ⟨first, rest, ha⟩ := a.exists_cons
  have hid : d.identity = (Reference.instantiation n hn a).identity := by rw [hdescribes]
  have hkind : d.kind = .cls := by rw [hdescribes]
  have hdefinition : d.definition = some n.identity := by rw [hdescribes]
  have hgeneric : d.isGeneric = true := by rw [hdescribes]
  have harguments : d.genericArguments = first.identity :: rest.map Reference.identity := by
    rw [hdescribes, ha]
    rfl
  have hbare : Bare d := by
    rw [hdescribes]
    exact ⟨rfl, rfl, rfl⟩
  have hprimitive : Lua.primitive? d.identity = none := by
    refine primitive?_eq_none (.inl ?_)
    rw [hid, Reference.toList_identity, Reference.print]
    exact List.mem_append_right n.print List.mem_cons_self
  have hexprs : a.exprs o
      = answer first.identity :: (rest.map Reference.identity).map answer := by
    rw [exprs_eq_map, ← List.map_congr_left hanswer, ha, List.map_cons, List.map_map]
    rfl
  rw [compute_class hkind hprimitive, nullableUnderlying?_eq hkind hdefinition harguments, hexprs]
  by_cases hnull : n.identity = Shape.nullable
  · rw [if_pos hnull]
    unfold instantiated
    dsimp only
    rw [if_pos hnull]
  · rw [if_neg hnull]
    exact hbare.instantiation hgeneric hdefinition harguments hnull

/-- An array and what is passed by reference have the expression of their element in theirs. -/
theorem compute_element {element : Identity} (hkind : d.kind = .array ∨ d.kind = .byRef)
    (hprimitive : Lua.primitive? d.identity = none) (helement : d.element = some element) :
    (Surroundings.plain g o answer).compute d =
      if d.kind = .array then ⟨(answer element).render true ++ "[]", false⟩
      else answer element := by
  have hvoid : d.kind ≠ .void := by rcases hkind with h | h <;> simp [h]
  have hparameter : ¬d.isGenericMethodParameter = true := by
    rcases hkind with h | h <;>
      simp [Descriptor.isGenericMethodParameter, Descriptor.isGenericParameter, h]
  rw [Surroundings.compute, if_neg hvoid, hprimitive]
  dsimp only
  rw [if_neg hparameter, helement]
  rcases hkind with h | h
  · rw [h]
    rfl
  · rw [h]
    rfl

end

end EmmyStubs.Dump
