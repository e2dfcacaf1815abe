import EmmyStubs.Mapping.Name
import EmmyStubs.Proofs.Linking
import EmmyStubs.Proofs.Resolving

/-! # One type in two dumps

    A type may be described in one dump by its identity alone, and be referred to in another one
    that does not describe it.

    * **`eq_bare_of_entryOf`**: the entry gives the type a name and a namespace, and no type
      around it.
    * **`external_nameable`**: the reference gives it the same name and namespace, and the type
      around it.
    * **`described_agrees_external_iff`**: so the two agree on the qualified name, and on whether
      the type is generic, just where its own name has a backtick, or where the identity neither
      has one nor spells a type around it.
-/

namespace EmmyStubs.Dump

open EmmyStubs.Text

/-! ## §1. Names without brackets -/

/-- An identity that is a name: no array, nothing passed by reference, no instantiation. -/
structure Nameable (id : Identity) : Prop where
  notVoid : id ∉ Form.voids
  plain : ∀ c ∈ id.toList, c ≠ '[' ∧ c ≠ ']' ∧ c ≠ '&'
  named : simpleName id.toList ≠ []

section

variable {id : Identity}

theorem shapeOf_plain {s : List Char} (h : ∀ c ∈ s, c ≠ '[' ∧ c ≠ ']' ∧ c ≠ '&') :
    shapeOf s = s :=
  beforeFirst_of_notMem fun hmem => (h _ hmem).1 rfl

/-- Of a name only the type around it is taken apart. -/
theorem ofIdentity_plain (hvoid : id ∉ Form.voids)
    (h : ∀ c ∈ id.toList, c ≠ '[' ∧ c ≠ ']' ∧ c ≠ '&') :
    Form.ofIdentity id = .named (outerOf id.toList) := by
  have hlast : id.toList.getLast? ≠ some '&' := fun hlast =>
    (h _ (List.mem_of_getLast? hlast)).2.2 rfl
  have hbracket : trailingBracket? id.toList = none := by
    cases hb : trailingBracket? id.toList with
    | none => rfl
    | some b =>
      have hmem : ']' ∈ id.toList := by
        rw [eq_of_trailingBracket? hb]
        simp
      exact absurd rfl (h _ hmem).2.1
  rw [Form.ofIdentity, if_neg hvoid, if_neg hlast, hbracket]
  show Form.named (outerOf (shapeOf id.toList)) = _
  rw [shapeOf_plain h]

/-- The type around a name is spelled by a part of it. -/
theorem subset_of_outerOf {s : List Char} {outer : Identity} (h : outerOf s = some outer) :
    outer ≠ "" ∧ ∀ c ∈ outer.toList, c ∈ s := by
  unfold outerOf at h
  split at h
  · cases h
  · next hne =>
    cases h
    refine ⟨fun hempty => ?_, fun c hc => ?_⟩
    · have hnil := congrArg String.toList hempty
      rw [String.toList_ofList] at hnil
      exact hne hnil
    · rw [String.toList_ofList, beforeLast, List.mem_reverse] at hc
      exact List.mem_reverse.1 ((List.dropWhile_sublist _).subset (List.mem_of_mem_drop hc))

end

/-! ## §2. The two descriptors -/

/-- An entry that gives the identity of a type, and nothing else. -/
def bareEntries (id : Identity) : Entries :=
  [(.str "id", .str id)]

/-- What such an entry says of a type. -/
def bare (id : Identity) : Descriptor where
  identity := id
  name := String.ofList (simpleName id.toList)
  space := spaceOf id.toList
  isGeneric := (simpleName id.toList).contains '\x60'

theorem kindOf_class (id : Identity) : kindOf id (.str "class") = .ok .cls := by
  have hkind : TypeKind.ofName? (lower (Value.str "class").text) = some .cls := by
    decide +kernel
  rw [kindOf, hkind]
  rfl

/-- Where keys are left out, only the name tells that a type is generic. -/
theorem complete_bareEntries (described : List Identity) (id : Identity) (d : Descriptor) :
    complete described (bareEntries id) d = .ok
      { identity := d.identity, name := d.name, space := d.space, kind := d.kind,
        isGeneric := d.name.toList.contains '\x60', isExternal := d.isExternal } := by
  rfl

section

variable {id : Identity} (h : Nameable id)
include h

/-- An entry that leaves out name, namespace and kind takes them from the identity. -/
theorem outline_nameable {value : Value} {es : Entries} (hvalue : value.entries? = some es)
    (hid : Value.field es "id" = .str id) (hnull : Value.field es "name" = .null)
    (hspace : Value.lookup es "namespace" = none) (hkind : Value.lookup es "kind" = none) :
    outline value = .ok (es,
      { identity := id, name := String.ofList (simpleName id.toList),
        space := spaceOf id.toList }) := by
  have hempty : id ≠ "" := fun heq => h.named (by rw [heq]; rfl)
  have hname : String.ofList (simpleName id.toList) ≠ "" := fun heq => h.named (by
    rw [← String.toList_inj, String.toList_ofList] at heq
    exact heq)
  have hnameOf : nameOf id (Value.field es "name")
      = .ok (String.ofList (simpleName id.toList)) := by
    rw [hnull, nameOf]
    dsimp only
    rw [shapeOf_plain h.plain, if_neg hname]
    rfl
  have hspaceIn : spaceIn id (Value.lookup es "namespace") = .ok (spaceOf id.toList) := by
    rw [hspace, spaceIn, shapeOf_plain h.plain]
    rfl
  have hkindOf : kindOf id ((Value.lookup es "kind").getD (.str "class")) = .ok .cls := by
    rw [hkind]
    exact kindOf_class id
  unfold outline
  rw [hvalue]
  dsimp only
  rw [hid]
  dsimp only
  rw [if_neg hempty]
  exact except_bind_ok.2 ⟨id, rfl, except_bind_ok.2 ⟨_, hnameOf, except_bind_ok.2 ⟨_, hspaceIn,
    except_bind_ok.2 ⟨_, hkindOf, rfl⟩⟩⟩⟩

theorem outline_bareEntries {value : Value} (hvalue : value.entries? = some (bareEntries id)) :
    outline value = .ok (bareEntries id,
      { identity := id, name := String.ofList (simpleName id.toList),
        space := spaceOf id.toList }) :=
  outline_nameable h hvalue rfl rfl rfl rfl

/-- The type of such an entry. -/
theorem eq_bare_of_entryOf {described : List Identity} {value : Value} {d : Descriptor}
    (hvalue : value.entries? = some (bareEntries id)) (hd : EntryOf described value d) :
    d = bare id := by
  obtain ⟨es, o, -, -, houtline, hcomplete⟩ := hd
  rw [outline_bareEntries h hvalue] at houtline
  cases houtline
  rw [complete_bareEntries] at hcomplete
  cases hcomplete
  unfold bare
  rw [String.toList_ofList]

/-- The same type where it is not described. -/
theorem external_nameable : external id =
    { identity := id, name := String.ofList (simpleName id.toList), space := spaceOf id.toList,
      declaring := outerOf id.toList, isGeneric := id.toList.contains '\x60',
      isExternal := true } := by
  rw [external, ofIdentity_plain h.notVoid h.plain]
  unfold Form.descriptor
  dsimp only
  rw [shapeOf_plain h.plain]

end

/-! ## §3. What is accepted -/

/-- A name is accepted as a reference, whatever is described. -/
theorem exists_expand_plain {described : List Identity} {owner id : Identity} (hempty : id ≠ "")
    (h : ∀ c ∈ id.toList, c ≠ '[' ∧ c ≠ ']' ∧ c ≠ '&') :
    ∃ ds, expand described owner id = .ok ds := by
  -- The type around a nested one has a shorter name.
  induction hlength : id.toList.length using Nat.strongRecOn generalizing owner id with
  | ind n ih =>
    by_cases hid : id ∈ described
    · exact ⟨[], expand_of_described hempty hid⟩
    have harguments : (Form.ofIdentity id).arguments = [] := by
      by_cases hvoid : id ∈ Form.voids
      · rw [Form.ofIdentity, if_pos hvoid]
        rfl
      · rw [ofIdentity_plain hvoid h]
        rfl
    have hframe : ∀ x ∈ (Form.ofIdentity id).frame, x ≠ "" ∧ ∀ c ∈ x.toList, c ∈ id.toList := by
      intro x hx
      by_cases hvoid : id ∈ Form.voids
      · rw [Form.ofIdentity, if_pos hvoid] at hx
        cases hx
      · rw [ofIdentity_plain hvoid h] at hx
        exact subset_of_outerOf (Option.mem_toList.1 hx)
    obtain ⟨frame, hmap⟩ : ∃ frame,
        (Form.ofIdentity id).frame.mapM (expand described id) = .ok frame := by
      refine exists_mapM_ok fun x hx => ?_
      obtain ⟨hne, hchars⟩ := hframe x hx
      exact ih _ (hlength ▸ Form.length_frame_lt hx) hne (fun c hc => h c (hchars c hc)) rfl
    refine ⟨frame.flatten ++ [].flatten ++ [external id], (expand_eq_ok_iff hid).2 ?_⟩
    rw [harguments]
    exact ⟨hempty, List.not_mem_nil, frame, [], hmap, List.mapM_nil, rfl⟩

/-- A single entry is linked if it can be read and its type runs into no cycle. -/
theorem link_single {value : Value} {es : Entries} {o d : Descriptor}
    {externals : List Descriptor} (houtline : outline value = .ok (es, o))
    (hcomplete : complete [d.identity] es o = .ok d) (hexternals : externalsOf [d] = .ok externals)
    (hcycle : cycle? ⟨[d] ++ externals⟩ d = none) : link [value] = .ok ([d], externals) := by
  have houtlined : outlines [] [value] = .ok [(es, o)] :=
    outlines_eq_ok.2 ⟨.cons houtline .nil, by simp, by simp⟩
  refine link_eq_ok.2 ⟨_, houtlined, .cons hcomplete .nil, hexternals, ?_⟩
  refine checkCycles_eq_ok.2 fun e he => ?_
  rw [List.mem_singleton.1 he]
  exact hcycle

/-- A dump whose only entry gives an identity alone is accepted. -/
theorem exists_ofEntries_bare {id : Identity} (h : Nameable id) (defaultName : String)
    (source : Option String) :
    ∃ dump, ofEntries defaultName source [(.str "types", .list [.map (bareEntries id)])]
      = .ok dump := by
  have hcycle : cycle? ⟨[bare id] ++ []⟩ (bare id) = none := by
    rw [cycle?, bare, Graph.revisits, Graph.revisits]
    rfl
  have hlink : link [.map (bareEntries id)] = .ok ([bare id], []) := by
    refine link_single (outline_bareEntries h rfl) ?_ rfl hcycle
    rw [complete_bareEntries, bare, String.toList_ofList]
  exact ⟨⟨defaultName, source, [bare id], []⟩,
    ofEntries_eq_ok.2 ⟨.inl (Option.some_ne_none _), hlink, rfl, rfl⟩⟩

/-- An entry that gives the identities of a type and of its base type. -/
def derivedEntries (user id : Identity) : Entries :=
  [(.str "id", .str user), (.str "base_type", .str id)]

/-- The type of such an entry. -/
def derived (user id : Identity) : Descriptor :=
  { bare user with base := some id }

theorem complete_derivedEntries {described : List Identity} {user id : Identity} {d : Descriptor}
    {ds : List Descriptor} (h : expand described d.identity id = .ok ds) :
    complete described (derivedEntries user id) d = .ok
      { identity := d.identity, name := d.name, space := d.space, kind := d.kind, base := some id,
        isGeneric := d.name.toList.contains '\x60', isExternal := d.isExternal } := by
  have hoptional : Scope.optional ⟨described, d.identity⟩
      (Value.field (derivedEntries user id) "base_type") = .ok (some id) := by
    show (Scope.reference ⟨described, d.identity⟩ (.str id) >>= fun t => pure (some t)) = _
    rw [Scope.reference, h]
    rfl
  unfold complete
  dsimp only
  rw [hoptional]
  rfl

theorem base_external (id : Identity) : (external id).base = none := by
  unfold external Form.descriptor
  split <;> rfl

/-- A type whose base type is external runs into no cycle. -/
theorem cycle?_derived {user id : Identity} {externals : List Descriptor} (hne : id ≠ user)
    (hexternals : ∀ d ∈ externals, d = external d.identity) :
    cycle? ⟨[derived user id] ++ externals⟩ (derived user id) = none := by
  have hdeclaring : Graph.revisits ⟨[derived user id] ++ externals⟩ (·.declaring) [user] none
      = false := by
    rw [Graph.revisits]
  have hbase : Graph.revisits ⟨[derived user id] ++ externals⟩ (·.base) [user] (some id)
      = false := by
    rw [Graph.revisits, dif_neg fun hid => hne (List.mem_singleton.1 hid)]
    split
    · rfl
    · next d hd =>
      rcases List.mem_append.1 (Graph.mem_of_find? hd) with hmem | hmem
      · rw [List.mem_singleton.1 hmem] at hd
        exact absurd (Graph.identity_of_find? hd).symm hne
      · rw [hexternals d hmem, base_external, Graph.revisits]
  exact (if_neg (hdeclaring ▸ Bool.false_ne_true)).trans (if_neg (hbase ▸ Bool.false_ne_true))

/-- A reference to a name is accepted as the base type of any other name. -/
theorem exists_ofEntries_derived {user id : Identity} (huser : Nameable user) (h : Nameable id)
    (hne : id ≠ user) (defaultName : String) (source : Option String) :
    ∃ dump, ofEntries defaultName source [(.str "types", .list [.map (derivedEntries user id)])]
        = .ok dump ∧ external id ∈ dump.externals := by
  have hempty : id ≠ "" := fun heq => h.named (by rw [heq]; rfl)
  obtain ⟨ds, hds⟩ : ∃ ds, expand [user] user id = .ok ds := exists_expand_plain hempty h.plain
  have hexternals : externalsOf [derived user id] = .ok (distinct [[ds]].flatten.flatten) := by
    refine except_bind_ok.2 ⟨[[ds]], mapM_of_forall₂ (.cons ?_ .nil), rfl⟩
    have hlinks : (derived user id).links = [id] := rfl
    rw [hlinks]
    exact mapM_of_forall₂ (.cons hds .nil)
  have hlink : link [.map (derivedEntries user id)]
      = .ok ([derived user id], distinct [[ds]].flatten.flatten) := by
    refine link_single (outline_nameable huser rfl rfl rfl rfl rfl) ?_ hexternals ?_
    · refine (complete_derivedEntries hds).trans ?_
      rw [derived, bare, String.toList_ofList]
    · exact cycle?_derived hne (externalsOf_ok hexternals).2.external
  refine ⟨⟨defaultName, source, [derived user id], _⟩,
    ofEntries_eq_ok.2 ⟨.inl (Option.some_ne_none _), hlink, rfl, rfl⟩, ?_⟩
  -- The base type is referred to, and the only type described is another one.
  have hnew : id ∉ [derived user id].map (·.identity) := fun hid => hne (List.mem_singleton.1 hid)
  exact (mem_externals hexternals).2 ⟨_, List.mem_singleton_self _, id, List.mem_singleton_self id,
    id, .refl id, hnew, rfl⟩

/-! ## §4. Qualified names -/

/-- Joined by points and with a point in front, the names all have theirs. -/
theorem cons_dotted {ws : List (List Char)} (h : ws ≠ []) :
    '.' :: dotted ws = ws.flatMap fun w => '.' :: w := by
  induction ws with
  | nil => exact absurd rfl h
  | cons w ws ih =>
    cases ws with
    | nil => simp [dotted]
    | cons v ws =>
      have hrest := ih (by simp)
      rw [dotted] at hrest ⊢
      rw [List.flatMap_cons, ← hrest, List.intercalate_cons_cons]
      simp

/-- Names that come in between are not passed over. -/
theorem intercalate_ne_of_between (front : List String) {between : List String} (own : String)
    (h : between ≠ []) :
    ".".intercalate (front ++ [own]) ≠ ".".intercalate (front ++ between ++ [own]) := by
  intro heq
  rw [← String.toList_inj, String.toList_intercalate, String.toList_intercalate] at heq
  have hpointed := congrArg ('.' :: ·) heq
  change '.' :: dotted _ = '.' :: dotted _ at hpointed
  rw [cons_dotted (by simp), cons_dotted (by simp)] at hpointed
  simp only [List.map_append, List.flatMap_append] at hpointed
  -- What stands before the names in between is on both sides, and so is what stands after them.
  have hnone := List.self_eq_append_right.1 (List.append_cancel_right hpointed)
  obtain ⟨name, names, rfl⟩ := List.exists_cons_of_ne_nil h
  cases hnone

/-- A type with no type around it is called by its namespace and its own name. -/
theorem qualifiedName_of_declaring_none {g : Graph} {d : Descriptor} (h : d.declaring = none)
    (hgeneric : d.isGeneric = false) :
    g.qualifiedName d = ".".intercalate (d.space?.toList ++ [d.name]) := by
  rw [Graph.qualifiedName, hgeneric, Graph.declaringChain, h, Graph.chain_none]
  simp

/-- A nested type is called by something in between as well. -/
theorem qualifiedName_of_declaring {g : Graph} {d outer : Descriptor} {id : Identity}
    (h : d.declaring = some id) (houter : g.find? id = some outer)
    (hgeneric : d.isGeneric = false) :
    g.qualifiedName d ≠ ".".intercalate (d.space?.toList ++ [d.name]) := by
  have hbetween : (g.declaringChain d).map (·.name) ≠ [] := by
    rw [Graph.declaringChain, h, Graph.chain_of_find? (by simp) houter]
    simp
  rw [Graph.qualifiedName, hgeneric]
  exact (intercalate_ne_of_between _ _ hbetween).symm

/-! ## §5. Agreement -/

/-- A dump that is accepted, and that has an entry which gives the identity of a type alone. -/
def DescribesBare (id : Identity) (dump : Dump) : Prop :=
  ∃ defaultName source es, ofEntries defaultName source es = .ok dump ∧
    ∃ value ∈ entriesIn es, value.entries? = some (bareEntries id)

/-- A dump that is accepted, and that refers to a type which it does not describe. -/
def RefersTo (id : Identity) (dump : Dump) : Prop :=
  ∃ defaultName source es, ofEntries defaultName source es = .ok dump ∧
    ∃ d ∈ dump.externals, d.identity = id

/-- Where a described type is called as it is outside of its dump: its own name makes it generic,
    or nothing does and no type is spelled around it. -/
def CalledAlike (id : Identity) : Prop :=
  '\x60' ∈ simpleName id.toList ∨ '\x60' ∉ id.toList ∧ outerOf id.toList = none

/-- What stands in the own name of a type stands in its identity. -/
theorem mem_of_mem_simpleName {s : List Char} {c : Char} (h : c ∈ simpleName s) : c ∈ s := by
  have hlast : ∀ {sep : Char} {t : List Char}, c ∈ afterLast sep t → c ∈ t := by
    intro sep t hmem
    rw [afterLast, List.mem_reverse] at hmem
    exact List.mem_reverse.1 ((List.takeWhile_sublist _).subset hmem)
  exact hlast (hlast h)

theorem find?_of_describesBare {id : Identity} (h : Nameable id) {own : Dump}
    (hown : DescribesBare id own) : own.graph.find? id = some (bare id) := by
  obtain ⟨_, _, es, hown, value, hmem, hvalue⟩ := hown
  obtain ⟨-, hlink, -⟩ := ofEntries_eq_ok.1 hown
  obtain ⟨outlined, houtlined, hcomplete, -, -⟩ := link_eq_ok.1 hlink
  have hentries := entryOf_of_outlined (outlines_eq_ok.1 houtlined).1 hcomplete
  obtain ⟨i, hi, rfl⟩ := List.getElem_of_mem hmem
  have hi' : i < own.types.length := hentries.length_eq ▸ hi
  have hbare := eq_bare_of_entryOf h hvalue (hentries.get hi hi')
  have hdescribed : bare id ∈ own.types := by
    rw [← hbare]
    exact List.getElem_mem hi'
  exact find?_of_nodup (List.mem_append_left _ hdescribed) (nodup_of_link hlink)

/-- An external type is found, and so are the types that its identity is made of. -/
theorem find?_of_refersTo {id : Identity} {other : Dump} (hother : RefersTo id other) :
    other.graph.find? id = some (external id) ∧
      ∀ t ∈ (external id).links, ∃ e, other.graph.find? t = some e := by
  obtain ⟨_, _, es, hother, d, hd, rfl⟩ := hother
  obtain ⟨-, hlink, -⟩ := ofEntries_eq_ok.1 hother
  obtain ⟨-, -, -, hexternals, -⟩ := link_eq_ok.1 hlink
  have hmem := List.mem_append_right other.types hd
  rw [← (externalsOf_ok hexternals).2.external d hd]
  refine ⟨find?_of_nodup hmem (nodup_of_link hlink), fun t ht => ?_⟩
  obtain ⟨e, he, rfl⟩ := exists_of_occurs hexternals hmem ht (.refl t)
  exact ⟨e, find?_of_nodup he (nodup_of_link hlink)⟩

theorem isGeneric_bare (id : Identity) :
    (bare id).isGeneric = decide ('\x60' ∈ simpleName id.toList) :=
  List.contains_eq_mem _ _

theorem isGeneric_external_nameable {id : Identity} (h : Nameable id) :
    (external id).isGeneric = decide ('\x60' ∈ id.toList) := by
  rw [external_nameable h]
  exact List.contains_eq_mem _ _

/-- Where nothing is generic the names agree if no type is spelled around the type, and the graph
    of the reference has the one that is. -/
theorem qualifiedName_agrees_iff {id : Identity} (h : Nameable id) (hid : '\x60' ∉ id.toList)
    {g g' : Graph} (hclosed : ∀ t ∈ (external id).links, ∃ e, g'.find? t = some e) :
    g.qualifiedName (bare id) = g'.qualifiedName (external id) ↔ outerOf id.toList = none := by
  have hown : (bare id).isGeneric = false := by
    rw [isGeneric_bare, decide_eq_false fun hmem => hid (mem_of_mem_simpleName hmem)]
  have hexternal : (external id).isGeneric = false := by
    rw [isGeneric_external_nameable h, decide_eq_false hid]
  have hdeclaring : (external id).declaring = outerOf id.toList := by rw [external_nameable h]
  have hsame : (bare id).space?.toList ++ [(bare id).name]
      = (external id).space?.toList ++ [(external id).name] := by
    rw [external_nameable h]
    rfl
  rw [qualifiedName_of_declaring_none rfl hown, hsame]
  cases houter : outerOf id.toList with
  | none =>
    rw [houter] at hdeclaring
    exact iff_of_true (qualifiedName_of_declaring_none hdeclaring hexternal).symm rfl
  | some outer =>
    -- The type around it is in the graph, so its name comes in between.
    rw [houter] at hdeclaring
    obtain ⟨e, he⟩ := hclosed outer (by rw [Descriptor.links, hdeclaring]; simp)
    refine iff_of_false (fun heq => ?_) (by simp)
    exact qualifiedName_of_declaring hdeclaring he hexternal heq.symm

/-- The descriptor of the entry and that of the reference agree where `CalledAlike` says so, if the
    graph of the reference has the type around it. -/
theorem bare_agrees_iff {id : Identity} (h : Nameable id) {g g' : Graph}
    (hclosed : ∀ t ∈ (external id).links, ∃ e, g'.find? t = some e) :
    ((bare id).isGeneric = (external id).isGeneric ∧
      g.qualifiedName (bare id) = g'.qualifiedName (external id)) ↔ CalledAlike id := by
  unfold CalledAlike
  by_cases hid : '\x60' ∈ id.toList
  · by_cases hown : '\x60' ∈ simpleName id.toList
    · -- Both are generic, and have no name.
      have hbare : (bare id).isGeneric = true := by rw [isGeneric_bare, decide_eq_true hown]
      have hexternal : (external id).isGeneric = true := by
        rw [isGeneric_external_nameable h, decide_eq_true hid]
      refine iff_of_true ⟨hbare.trans hexternal.symm, ?_⟩ (.inl hown)
      rw [Graph.qualifiedName, Graph.qualifiedName, if_pos hbare, if_pos hexternal]
    · -- Only the reference is generic.
      rw [isGeneric_bare, isGeneric_external_nameable h, decide_eq_false hown, decide_eq_true hid]
      simp [hown, hid]
  · have hown : '\x60' ∉ simpleName id.toList := fun hmem => hid (mem_of_mem_simpleName hmem)
    rw [qualifiedName_agrees_iff h hid hclosed, isGeneric_bare, isGeneric_external_nameable h,
      decide_eq_false hown, decide_eq_false hid]
    simp [hown, hid]

/-- A type that one dump describes by its identity alone, and that another one refers to without
    describing it, has one name and one namespace.  It is generic in both or in neither, and it is
    called alike, exactly where `CalledAlike` says so. -/
theorem described_agrees_external_iff {id : Identity} (h : Nameable id) :
    (∃ own, DescribesBare id own) ∧ (∃ other, RefersTo id other) ∧
      ∀ own other, DescribesBare id own → RefersTo id other →
        ∃ d e, own.graph.find? id = some d ∧ other.graph.find? id = some e ∧
          d.name = e.name ∧ d.space = e.space ∧
          ((d.isGeneric = e.isGeneric ∧
            own.graph.qualifiedName d = other.graph.qualifiedName e) ↔ CalledAlike id) := by
  refine ⟨?_, ?_, ?_⟩
  · obtain ⟨own, hown⟩ := exists_ofEntries_bare h "" none
    exact ⟨own, _, _, _, hown, _, List.mem_singleton_self _, rfl⟩
  · obtain ⟨user, huser, hne⟩ : ∃ user, Nameable user ∧ id ≠ user := by
      by_cases hid : id = "A"
      · exact ⟨"B", ⟨by decide, by simp, by decide⟩, by rw [hid]; decide⟩
      · exact ⟨"A", ⟨by decide, by simp, by decide⟩, hid⟩
    obtain ⟨other, hother, hmem⟩ := exists_ofEntries_derived huser h hne "" none
    exact ⟨other, _, _, _, hother, _, hmem, identity_external id⟩
  · intro own other hdescribes hrefers
    have hd := find?_of_describesBare h hdescribes
    obtain ⟨he, hclosed⟩ := find?_of_refersTo hrefers
    have hexternal := external_nameable h
    have hname : (bare id).name = (external id).name := by
      rw [hexternal]
      rfl
    have hspace : (bare id).space = (external id).space := by
      rw [hexternal]
      rfl
    exact ⟨bare id, external id, hd, he, hname, hspace, bare_agrees_iff h hclosed⟩

/-- A type that is neither generic nor nested is called alike. -/
theorem crate_agrees : ∃ own other d e, DescribesBare "Shop.Crate" own ∧
    RefersTo "Shop.Crate" other ∧ own.graph.find? "Shop.Crate" = some d ∧
    other.graph.find? "Shop.Crate" = some e ∧ d.isGeneric = e.isGeneric ∧
    own.graph.qualifiedName d = other.graph.qualifiedName e := by
  have hcrate : Nameable "Shop.Crate" := ⟨by decide, by simp, by decide⟩
  obtain ⟨⟨own, hown⟩, ⟨other, hother⟩, hall⟩ := described_agrees_external_iff hcrate
  obtain ⟨d, e, hd, he, -, -, hiff⟩ := hall own other hown hother
  obtain ⟨hgeneric, hname⟩ := hiff.2 (.inr ⟨by decide, by decide⟩)
  exact ⟨own, other, d, e, hown, hother, hd, he, hgeneric, hname⟩

/-- What the dump of a map calls a type, and whether the type is external. -/
def called? (name : String) (es : Entries) (id : Identity) : Option (Bool × String) :=
  (ofEntries name none es).toOption.bind fun dump => (dump.graph.find? id).map fun d =>
    (d.isExternal, dump.graph.qualifiedName d)

theorem exists_of_called? {name : String} {es : Entries} {id : Identity} {called : Bool × String}
    (h : called? name es id = some called) :
    ∃ dump d, ofEntries name none es = .ok dump ∧ dump.graph.find? id = some d ∧
      d.isExternal = called.1 ∧ dump.graph.qualifiedName d = called.2 := by
  obtain ⟨dump, hdump, h⟩ := Option.bind_eq_some_iff.1 h
  rw [toOption_eq_some_iff] at hdump
  obtain ⟨d, hd, rfl⟩ := Option.map_eq_some_iff.1 h
  exact ⟨dump, d, hdump, hd, rfl, rfl⟩

/-- A nested type is not: the dump that describes it leaves out the type around it. -/
theorem inner_disagrees : Nameable "N.Outer+Inner" ∧ ∃ own other d e,
    ofEntries "Own" none [(.str "types", .list [.map (bareEntries "N.Outer+Inner")])] = .ok own ∧
    ofEntries "Other" none
      [(.str "types", .list [.map (derivedEntries "M.User" "N.Outer+Inner")])] = .ok other ∧
    own.graph.find? "N.Outer+Inner" = some d ∧ other.graph.find? "N.Outer+Inner" = some e ∧
    d.isExternal = false ∧ e.isExternal = true ∧
    own.graph.qualifiedName d = "N.Inner" ∧ other.graph.qualifiedName e = "N.Outer.Inner" := by
  have hcalled : called? "Own" [(.str "types", .list [.map (bareEntries "N.Outer+Inner")])]
      "N.Outer+Inner" = some (false, "N.Inner") := by
    decide +kernel
  have hcalled' : called? "Other"
      [(.str "types", .list [.map (derivedEntries "M.User" "N.Outer+Inner")])]
      "N.Outer+Inner" = some (true, "N.Outer.Inner") := by
    decide +kernel
  obtain ⟨own, d, hown, hd, hdescribed, hname⟩ := exists_of_called? hcalled
  obtain ⟨other, e, hother, he, hexternal, hname'⟩ := exists_of_called? hcalled'
  exact ⟨⟨by decide, by simp, by decide⟩, own, other, d, e, hown, hother, hd, he, hdescribed,
    hexternal, hname, hname'⟩

end EmmyStubs.Dump
