import EmmyStubs.Proofs.Loading
import EmmyStubs.Proofs.Parsing

/-! # References that are resolved

    * **`Reference.Describes`**: the descriptor that says of an external type what its reference
      spells.
    * **`expand_identity`**: a reference brings in just the external types that it reaches without
      going through a described one.
    * **`resolve_identity`**: so, whatever types are described, a reference is accepted, and each
      type that it is made of is found: the described one, or an external one that its part of the
      reference describes.
-/

namespace EmmyStubs.Dump

open EmmyStubs.Text

/-! ## §1. What a reference describes -/

/-- What is known of an external type: its kind and its links, and of a named type its name, its
    namespace and whether it is generic.  The name of an array or of what is passed by reference
    is left open, for no link leads by a name. -/
def Reference.Describes (t : Reference) (d : Descriptor) : Prop :=
  match t with
  | named n =>
    if n.identity ∈ Form.voids then
      d = { identity := t.identity, name := "Void", space := some "System", kind := .void,
            isExternal := true }
    else
      d = { identity := t.identity, name := String.ofList n.own.text, space := n.space?,
            declaring := n.outer?.map Name.identity, isGeneric := decide n.IsGeneric,
            isExternal := true }
  | array e _ =>
    d = { identity := t.identity, name := d.name, kind := .array, element := some e.identity,
          isExternal := true }
  | byRef e =>
    d = { identity := t.identity, name := d.name, kind := .byRef, element := some e.identity,
          isExternal := true }
  | instantiation n _ a =>
    d = { identity := t.identity, name := String.ofList n.own.text, space := n.space?,
          declaring := n.outer?.map Name.identity, definition := some n.identity,
          genericArguments := a.toList.map identity, isGeneric := true, isExternal := true }

namespace Name

theorem simpleName_print (n : Name) : simpleName n.print = n.own.text := by
  cases n with
  | top space own =>
    have hlast : afterLast '.' (top space own).print = own.text := by
      rw [print]
      by_cases hspace : space.map (·.text) = []
      · rw [hspace, List.nil_append]
        simpa [dotted] using afterLast_of_notMem own.point_notMem
      · rw [dotted_append hspace, afterLast_append _ own.point_notMem]
    rw [simpleName, afterLast_of_notMem (plus_notMem_top space own), hlast]
    rfl
  | nested outer own =>
    rw [print, simpleName, afterLast_append _ own.plus_notMem,
      afterLast_of_notMem own.point_notMem]
    rfl

/-- What stands before the first plus sign is the name of the outermost type. -/
theorem exists_beforeFirst (n : Name) :
    ∃ own : Segment, beforeFirst '+' n.print = dotted (n.space.map (·.text) ++ [own.text]) := by
  induction n with
  | top space own => exact ⟨own, beforeFirst_of_notMem (plus_notMem_top space own)⟩
  | nested outer own ih =>
    obtain ⟨root, hroot⟩ := ih
    exact ⟨root, by rw [print, beforeFirst_append_cons, hroot]; rfl⟩

/-- The names of a namespace are not empty, so it is not empty itself. -/
theorem dotted_ne_nil {space : List Segment} (h : space ≠ []) :
    dotted (space.map (·.text)) ≠ [] := by
  obtain ⟨w, space, rfl⟩ := List.exists_cons_of_ne_nil h
  obtain ⟨rest, hrest⟩ := exists_dotted_cons w.text (space.map (·.text))
  obtain ⟨c, s, hw⟩ := List.exists_cons_of_ne_nil w.ne
  rw [List.map_cons, hrest, hw]
  exact List.cons_ne_nil c _

theorem spaceOf_print (n : Name) : spaceOf n.print = n.space? := by
  obtain ⟨own, hown⟩ := n.exists_beforeFirst
  unfold spaceOf space?
  rw [hown]
  by_cases hspace : n.space = []
  · have hno : beforeLast '.' own.text = [] := beforeLast_of_notMem own.point_notMem
    simp [hspace, dotted, hno]
  · rw [dotted_append (by simpa using hspace), beforeLast_append _ own.point_notMem, if_neg hspace]
    split
    · next hnil => exact absurd hnil (dotted_ne_nil hspace)
    · rfl

/-- The type that returns nothing is nested in no other one. -/
theorem outer?_of_mem_voids {n : Name} (h : n.identity ∈ Form.voids) : n.outer? = none := by
  have hvoids : ∀ v ∈ Form.voids, '+' ∉ v.toList := by decide
  cases n with
  | top space own => rfl
  | nested outer own =>
    have hplus : '+' ∈ (nested outer own).identity.toList := by
      rw [identity, String.toList_ofList, print]
      exact List.mem_append_right outer.print List.mem_cons_self
    exact absurd hplus (hvoids _ h)

end Name

/-- The descriptor made of an identity says what the reference spells. -/
theorem describes_external (t : Reference) : t.Describes (external t.identity) := by
  have hform := ofIdentity_identity t
  unfold external
  rw [hform]
  cases t with
  | named n =>
    have hprint : (Reference.named n).identity.toList = n.print := String.toList_ofList
    unfold Reference.Describes Reference.form
    dsimp only
    by_cases hvoid : n.identity ∈ Form.voids
    · rw [if_pos hvoid, if_pos hvoid]
      rfl
    · rw [if_neg hvoid, if_neg hvoid, Form.descriptor]
      rw [hprint, shapeOf_print, n.simpleName_print, n.spaceOf_print, List.contains_eq_mem]
      rfl
  | array e r => rfl
  | byRef e => rfl
  | instantiation n hn a =>
    have hprint : (Reference.instantiation n hn a).identity.toList
        = n.print ++ '[' :: (a.print ++ [']']) := by
      rw [Reference.toList_identity, Reference.print]
    have hgeneric : '\x60' ∈ n.print ++ '[' :: (a.print ++ [']']) :=
      List.mem_append_left _ hn
    unfold Reference.Describes Reference.form
    dsimp only
    rw [Form.descriptor, hprint, shapeOf_bracket, n.simpleName_print, n.spaceOf_print,
      List.contains_eq_mem, decide_eq_true hgeneric]

/-! ## §2. What a reference brings in -/

/-- The identities that an identity is made of are those of the parts. -/
theorem identities_of_parts (t : Reference) :
    t.form.frame = t.frame.map Reference.identity ∧
      t.form.arguments = t.arguments.map Reference.identity := by
  have houter : ∀ n : Name, (n.outer?.map Name.identity).toList
      = (n.outer?.toList.map Reference.named).map Reference.identity := by
    intro n
    cases n.outer? with
    | none => rfl
    | some outer => rfl
  cases t with
  | named n =>
    unfold Reference.form Reference.frame Reference.arguments
    dsimp only
    by_cases hvoid : n.identity ∈ Form.voids
    · rw [if_pos hvoid, Name.outer?_of_mem_voids hvoid]
      exact ⟨rfl, rfl⟩
    · rw [if_neg hvoid]
      exact ⟨houter n, rfl⟩
  | array e r => exact ⟨rfl, rfl⟩
  | byRef e => exact ⟨rfl, rfl⟩
  | instantiation n hn a =>
    refine ⟨?_, rfl⟩
    unfold Reference.form Reference.frame
    dsimp only
    rw [Form.frame, houter, List.map_append]
    rfl

/-- A part is spelled with fewer characters. -/
theorem Reference.length_part_lt {t u : Reference} (h : u ∈ t.parts) :
    u.identity.toList.length < t.identity.toList.length := by
  obtain ⟨hframe, harguments⟩ := identities_of_parts t
  rw [← ofIdentity_identity] at hframe harguments
  rcases List.mem_append.1 h with h | h
  · exact Form.length_frame_lt (hframe ▸ List.mem_map_of_mem h)
  · exact Form.length_arguments_lt (harguments ▸ List.mem_map_of_mem h)

theorem Reference.identity_ne_empty (t : Reference) : t.identity ≠ "" := by
  intro hempty
  have hprint := t.toList_identity
  rw [hempty] at hprint
  exact t.print_ne_nil hprint.symm

/-- The descriptors are those of the external types that a reference reaches without going
    through a described one. -/
def Brought (described : List Identity) (t : Reference) (ds : List Descriptor) : Prop :=
  ∀ d, d ∈ ds ↔ ∃ u, t.Reaches described u ∧ u.identity ∉ described ∧ d = external u.identity

/-- What several references bring in together. -/
theorem expand_all {described : List Identity} {owner : Identity} {ts : List Reference}
    (h : ∀ t ∈ ts, ∃ ds, expand described owner t.identity = .ok ds ∧ Brought described t ds) :
    ∃ brought, (ts.map Reference.identity).mapM (expand described owner) = .ok brought ∧
      ∀ d, d ∈ brought.flatten ↔ ∃ t ∈ ts, ∃ u,
        t.Reaches described u ∧ u.identity ∉ described ∧ d = external u.identity := by
  obtain ⟨brought, hmap⟩ : ∃ brought,
      (ts.map Reference.identity).mapM (expand described owner) = .ok brought := by
    refine exists_mapM_ok fun x hx => ?_
    obtain ⟨t, ht, rfl⟩ := List.mem_map.1 hx
    obtain ⟨ds, hds, -⟩ := h t ht
    exact ⟨ds, hds⟩
  refine ⟨brought, hmap, fun d => ⟨fun hd => ?_, ?_⟩⟩
  · obtain ⟨ds, hmem, hd⟩ := List.mem_flatten.1 hd
    obtain ⟨x, hx, hexpand⟩ := exists_of_mem_mapM hmap hmem
    obtain ⟨t, ht, rfl⟩ := List.mem_map.1 hx
    obtain ⟨ds', hds', hall⟩ := h t ht
    rw [hds', Except.ok.injEq] at hexpand
    exact ⟨t, ht, (hall d).1 (hexpand ▸ hd)⟩
  · rintro ⟨t, ht, hu⟩
    have hmem : t.identity ∈ ts.map Reference.identity := List.mem_map_of_mem ht
    obtain ⟨ds, hds, hexpand⟩ := exists_of_mapM hmap hmem
    obtain ⟨ds', hds', hall⟩ := h t ht
    rw [hds', Except.ok.injEq] at hexpand
    exact List.mem_flatten.2 ⟨ds, hds, hexpand ▸ (hall d).2 hu⟩

/-- A reference is accepted, and brings in the external types that it reaches. -/
theorem expand_identity (described : List Identity) (t : Reference) (owner : Identity) :
    ∃ ds, expand described owner t.identity = .ok ds ∧ Brought described t ds := by
  -- The parts of a reference are shorter than it.
  induction hlength : t.identity.toList.length using Nat.strongRecOn generalizing t owner with
  | ind n ih =>
  by_cases hdescribed : t.identity ∈ described
  · refine ⟨[], expand_of_described t.identity_ne_empty hdescribed, fun d => ?_⟩
    refine iff_of_false (by simp) ?_
    rintro ⟨u, hu, hnew, -⟩
    cases hu with
    | refl => exact hnew hdescribed
    | part ht => exact ht hdescribed
  have hpart : ∀ u ∈ t.parts, ∃ ds, expand described t.identity u.identity = .ok ds ∧
      Brought described u ds :=
    fun u hu => ih _ (hlength ▸ Reference.length_part_lt hu) u t.identity rfl
  obtain ⟨frame, hframe, hinFrame⟩ :=
    expand_all fun u hu => hpart u (List.mem_append_left t.arguments hu)
  obtain ⟨arguments, harguments, hinArguments⟩ :=
    expand_all fun u hu => hpart u (List.mem_append_right t.frame hu)
  have hempty : "" ∉ t.arguments.map Reference.identity := by
    intro hmem
    obtain ⟨u, -, hu⟩ := List.mem_map.1 hmem
    exact u.identity_ne_empty hu
  obtain ⟨hframeOf, hargumentsOf⟩ := identities_of_parts t
  rw [← ofIdentity_identity] at hframeOf hargumentsOf
  refine ⟨frame.flatten ++ arguments.flatten ++ [external t.identity], ?_, fun d => ?_⟩
  · rw [expand_eq_ok_iff hdescribed, hframeOf, hargumentsOf]
    exact ⟨t.identity_ne_empty, hempty, frame, arguments, hframe, harguments, rfl⟩
  · rw [List.mem_append, List.mem_append, hinFrame, hinArguments, List.mem_singleton]
    constructor
    · rintro ((⟨u, hu, v, hv, hd⟩ | ⟨u, hu, v, hv, hd⟩) | rfl)
      · exact ⟨v, .part hdescribed (List.mem_append_left _ hu) hv, hd⟩
      · exact ⟨v, .part hdescribed (List.mem_append_right _ hu) hv, hd⟩
      · exact ⟨t, .refl t, hdescribed, rfl⟩
    · rintro ⟨v, hv, hnew, rfl⟩
      cases hv with
      | refl => exact .inr rfl
      | @part _ u _ _ hu hv =>
        refine .inl ((List.mem_append.1 hu).imp (fun hu => ?_) fun hu => ?_)
        · exact ⟨u, hu, v, hv, hnew, rfl⟩
        · exact ⟨u, hu, v, hv, hnew, rfl⟩

/-! ## §3. What a reference is resolved to -/

/-- A described type of the identity if there is one, and else what the reference describes. -/
def Reference.Resolved (types : List Descriptor) (t : Reference) (d : Descriptor) : Prop :=
  match types.find? (·.identity == t.identity) with
  | some described => d = described
  | none => t.Describes d

/-- The external types of one identity are the same, so the first of them is found. -/
theorem find?_external {ds : List Descriptor} (hds : ∀ d ∈ ds, d = external d.identity)
    {id : Identity} (h : external id ∈ ds) :
    ds.find? (·.identity == id) = some (external id) := by
  cases hfind : ds.find? (·.identity == id) with
  | some d =>
    have hid : d.identity = id := by simpa using List.find?_some hfind
    rw [hds d (List.mem_of_find?_eq_some hfind), hid]
  | none =>
    have hother := List.find?_eq_none.1 hfind _ h
    rw [identity_external] at hother
    exact absurd (beq_self_eq_true id) hother

/-- A type that is accounted for is found: the described one comes first. -/
theorem find?_of_accounted {types ds : List Descriptor} (hds : ∀ d ∈ ds, d = external d.identity)
    {t : Reference} (h : Accounted (types.map (·.identity)) ds t.identity) :
    ∃ d, (⟨types ++ ds⟩ : Graph).find? t.identity = some d ∧ t.Resolved types d := by
  unfold Graph.find? Reference.Resolved
  rw [List.find?_append]
  cases htypes : types.find? (·.identity == t.identity) with
  | some d => exact ⟨d, rfl, rfl⟩
  | none =>
    have hnew : t.identity ∉ types.map (·.identity) := by
      intro hmem
      obtain ⟨e, he, hid⟩ := List.mem_map.1 hmem
      exact List.find?_eq_none.1 htypes e he (by simp [hid])
    rw [find?_external hds (h.resolve_left hnew)]
    exact ⟨external t.identity, rfl, describes_external t⟩

theorem Brought.accounted {described : List Identity} {t u : Reference} {ds : List Descriptor}
    (h : Brought described t ds) (hu : t.Reaches described u) :
    Accounted described ds u.identity := by
  by_cases hdescribed : u.identity ∈ described
  · exact .inl hdescribed
  · exact .inr ((h _).2 ⟨u, hu, hdescribed, rfl⟩)

theorem Brought.all_external {described : List Identity} {t : Reference} {ds : List Descriptor}
    (h : Brought described t ds) : ∀ d ∈ ds, d = external d.identity := by
  intro d hd
  obtain ⟨u, -, -, rfl⟩ := (h d).1 hd
  rw [identity_external]

/-- Whatever types are described, a reference is accepted.  Each type that it reaches is found
    then: the described one, or an external one that its part of the reference describes; and
    nothing else is brought in.  What is spelled beneath a described type is not looked at with it,
    but as a reference of its own it is resolved in the same way. -/
theorem resolve_identity (t : Reference) (types : List Descriptor) (owner : Identity) :
    (∃ ds, expand (types.map (·.identity)) owner t.identity = .ok ds ∧
      (∀ d ∈ ds, ∃ u, t.Reaches (types.map (·.identity)) u ∧
        u.identity ∉ types.map (·.identity) ∧ u.Describes d) ∧
      ∀ u, t.Reaches (types.map (·.identity)) u →
        ∃ d, (⟨types ++ ds⟩ : Graph).find? u.identity = some d ∧ u.Resolved types d) ∧
    ∀ u, t.Contains u → ∀ owner,
      ∃ ds, expand (types.map (·.identity)) owner u.identity = .ok ds ∧
        ∃ d, (⟨types ++ ds⟩ : Graph).find? u.identity = some d ∧ u.Resolved types d := by
  constructor
  · obtain ⟨ds, hds, hbrought⟩ := expand_identity (types.map (·.identity)) t owner
    refine ⟨ds, hds, fun d hd => ?_, fun u hu => ?_⟩
    · obtain ⟨u, hu, hnew, rfl⟩ := (hbrought d).1 hd
      exact ⟨u, hu, hnew, describes_external u⟩
    · exact find?_of_accounted hbrought.all_external (hbrought.accounted hu)
  · intro u _ owner
    obtain ⟨ds, hds, hbrought⟩ := expand_identity (types.map (·.identity)) u owner
    exact ⟨ds, hds, find?_of_accounted hbrought.all_external (hbrought.accounted (.refl u))⟩

end EmmyStubs.Dump
