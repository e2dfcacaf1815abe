import Mathlib.Data.List.Forall2
import EmmyStubs.Dump
import EmmyStubs.Proofs.Links

/-! # Loaded dumps

    What is known of a dump that was loaded:

    * **`expand_ok`**: what a reference brings in is made up of external types, and refers to
      nothing that is neither described nor brought in with it.
    * **`Dump.Whole`**: the graph has every type of the dump, and describes all that it refers
      to.
    * **`load_whole`**: so it is for every dump that is loaded, whatever its file says.
-/

namespace EmmyStubs

/-! ## §1. Computations that may fail -/

section

variable {ε α β : Type}

theorem except_ok_bind {a : α} {f : α → Except ε β} : Except.ok a >>= f = f a := rfl

theorem except_bind_ok {x : Except ε α} {f : α → Except ε β} {b : β} :
    x >>= f = .ok b ↔ ∃ a, x = .ok a ∧ f a = .ok b := by
  cases x with
  | error e =>
    constructor
    · intro h
      cases h
    · rintro ⟨a, h, -⟩
      cases h
  | ok a =>
    constructor
    · exact fun h => ⟨a, rfl, h⟩
    · rintro ⟨a', h, hf⟩
      cases h
      exact hf

/-- Two steps are refused because the first one is, or because the second one is. -/
theorem except_bind_error {x : Except ε α} {f : α → Except ε β} {e : ε} :
    x >>= f = .error e ↔ x = .error e ∨ ∃ a, x = .ok a ∧ f a = .error e := by
  cases x with
  | error e' =>
    constructor
    · intro h
      cases h
      exact .inl rfl
    · rintro (h | ⟨a, h, -⟩)
      · cases h
        rfl
      · cases h
  | ok a =>
    constructor
    · exact fun h => .inr ⟨a, rfl, h⟩
    · rintro (h | ⟨a', h, hf⟩)
      · cases h
      · cases h
        exact hf

/-- As an option, a computation has what it gives. -/
theorem toOption_eq_some_iff {x : Except ε α} {a : α} : x.toOption = some a ↔ x = .ok a := by
  cases x with
  | error e => simp [Except.toOption]
  | ok a' => simp [Except.toOption]

/-- What is computed for each member of a list. -/
theorem mapM_ok {f : α → Except ε β} {l : List α} {l' : List β} (h : l.mapM f = .ok l') :
    List.Forall₂ (fun a b => f a = .ok b) l l' := by
  induction l generalizing l' with
  | nil =>
    rw [List.mapM_nil] at h
    cases h
    exact .nil
  | cons a l ih =>
    rw [List.mapM_cons] at h
    obtain ⟨b, hb, h⟩ := except_bind_ok.1 h
    obtain ⟨bs, hbs, h⟩ := except_bind_ok.1 h
    cases h
    exact .cons hb (ih hbs)

/-- What is given for each member of a list is computed for the whole list. -/
theorem mapM_of_forall₂ {f : α → Except ε β} {l : List α} {l' : List β}
    (h : List.Forall₂ (fun a b => f a = .ok b) l l') : l.mapM f = .ok l' := by
  induction h with
  | nil => exact List.mapM_nil
  | cons hb _ ih =>
    rw [List.mapM_cons, hb, ih]
    rfl

/-- Each member of a list gives a member of the results. -/
theorem exists_of_mapM {f : α → Except ε β} {l : List α} {l' : List β} (h : l.mapM f = .ok l')
    {a : α} (ha : a ∈ l) : ∃ b ∈ l', f a = .ok b := by
  have hall := mapM_ok h
  obtain ⟨i, hi, rfl⟩ := List.getElem_of_mem ha
  have hi' : i < l'.length := hall.length_eq ▸ hi
  exact ⟨l'[i], List.getElem_mem hi', hall.get hi hi'⟩

/-- Each of the results comes from a member of the list. -/
theorem exists_of_mem_mapM {f : α → Except ε β} {l : List α} {l' : List β} (h : l.mapM f = .ok l')
    {b : β} (hb : b ∈ l') : ∃ a ∈ l, f a = .ok b := by
  have hall := mapM_ok h
  obtain ⟨i, hi', rfl⟩ := List.getElem_of_mem hb
  have hi : i < l.length := hall.length_eq ▸ hi'
  exact ⟨l[i], List.getElem_mem hi, hall.get hi hi'⟩

/-- If each member of a list gives something, the whole list does. -/
theorem exists_mapM_ok {f : α → Except ε β} {l : List α} (h : ∀ a ∈ l, ∃ b, f a = .ok b) :
    ∃ bs, l.mapM f = .ok bs := by
  induction l with
  | nil => exact ⟨[], List.mapM_nil⟩
  | cons a l ih =>
    obtain ⟨b, hb⟩ := h a List.mem_cons_self
    obtain ⟨bs, hbs⟩ := ih fun a' ha => h a' (List.mem_cons_of_mem a ha)
    refine ⟨b :: bs, ?_⟩
    rw [List.mapM_cons, hb, hbs]
    rfl

/-- What is refused for a list is refused for a member of it. -/
theorem exists_of_mapM_eq_error {f : α → Except ε β} {l : List α} {e : ε}
    (h : l.mapM f = .error e) : ∃ a ∈ l, f a = .error e := by
  induction l with
  | nil =>
    rw [List.mapM_nil] at h
    cases h
  | cons a l ih =>
    rw [List.mapM_cons] at h
    rcases except_bind_error.1 h with h | ⟨b, -, h⟩
    · exact ⟨a, List.mem_cons_self, h⟩
    · rcases except_bind_error.1 h with h | ⟨bs, -, h⟩
      · obtain ⟨a', ha', hf⟩ := ih h
        exact ⟨a', List.mem_cons_of_mem a ha', hf⟩
      · cases h

theorem mapM_attach (f : α → Except ε β) (l : List α) :
    l.attach.mapM (fun x => f x.1) = l.mapM f := by
  show l.attach.mapM (f ∘ Subtype.val) = l.mapM f
  rw [← List.mapM_map, List.attach_map_subtype_val]

end

namespace Dump

/-! ## §2. External types -/

theorem identity_external (id : Identity) : (external id).identity = id := by
  unfold external Form.descriptor
  split <;> rfl

/-- An external type refers to the parts of its identity, and to nothing else. -/
theorem mem_links_external {id t : Identity} :
    t ∈ (external id).links ↔
      t ∈ (Form.ofIdentity id).frame ∨ t ∈ (Form.ofIdentity id).arguments := by
  unfold external
  cases hform : Form.ofIdentity id with
  | void => simp [Form.descriptor, Descriptor.links, Form.frame, Form.arguments]
  | byRef element => simp [Form.descriptor, Descriptor.links, Form.frame, Form.arguments]
  | array element rank => simp [Form.descriptor, Descriptor.links, Form.frame, Form.arguments]
  | named outer => simp [Form.descriptor, Descriptor.links, Form.frame, Form.arguments]
  | instantiation outer definition arguments =>
    simp [Form.descriptor, Descriptor.links, Form.frame, Form.arguments, or_assoc]

/-- A type is described, or is an external type of a list. -/
def Accounted (described : List Identity) (ds : List Descriptor) (t : Identity) : Prop :=
  t ∈ described ∨ external t ∈ ds

/-- Some external types that refer to nothing but described types and one another. -/
structure SelfContained (described : List Identity) (ds : List Descriptor) : Prop where
  external : ∀ d ∈ ds, d = external d.identity
  links : ∀ d ∈ ds, ∀ t ∈ d.links, Accounted described ds t

variable {described : List Identity} {ds ds' : List Descriptor}

theorem Accounted.mono {t : Identity} (h : Accounted described ds t) (hds : ∀ d ∈ ds, d ∈ ds') :
    Accounted described ds' t :=
  h.imp_right (hds _)

theorem SelfContained.flatten {parts : List (List Descriptor)}
    (h : ∀ part ∈ parts, SelfContained described part) : SelfContained described parts.flatten where
  external := by
    intro d hd
    obtain ⟨part, hpart, hd⟩ := List.mem_flatten.1 hd
    exact (h part hpart).external d hd
  links := by
    intro d hd t ht
    obtain ⟨part, hpart, hd⟩ := List.mem_flatten.1 hd
    refine ((h part hpart).links d hd t ht).mono fun e he => ?_
    exact List.mem_flatten.2 ⟨part, hpart, he⟩

theorem SelfContained.append (h : SelfContained described ds) (h' : SelfContained described ds') :
    SelfContained described (ds ++ ds') := by
  have hparts : ∀ part ∈ [ds, ds'], SelfContained described part := by
    intro part hpart
    simp only [List.mem_cons, List.not_mem_nil, or_false] at hpart
    rcases hpart with rfl | rfl
    · exact h
    · exact h'
  simpa using SelfContained.flatten hparts

theorem ne_empty_of_expand {owner id : Identity} (h : expand described owner id = .ok ds) :
    id ≠ "" := by
  rintro rfl
  rw [expand, if_pos rfl] at h
  cases h

/-- The reading of a reference to a type that is not described. -/
theorem expand_of_new {owner id : Identity} (hne : id ≠ "") (hid : id ∉ described) :
    expand described owner id = do
      let frame ← (Form.ofIdentity id).frame.mapM (expand described id)
      if "" ∈ (Form.ofIdentity id).arguments then throw ⟨some id, .emptyArgument⟩
      let arguments ← (Form.ofIdentity id).arguments.mapM (expand described id)
      return frame.flatten ++ arguments.flatten ++ [external id] := by
  rw [expand, if_neg hne, if_neg hid, mapM_attach, mapM_attach]

theorem expand_of_described {owner id : Identity} (hne : id ≠ "") (hid : id ∈ described) :
    expand described owner id = .ok [] := by
  rw [expand, if_neg hne, if_pos hid]
  rfl

/-- A reference to a type that is not described is accepted if its parts are, and no argument is
    empty.  The type itself comes behind what its parts bring in. -/
theorem expand_eq_ok_iff {owner id : Identity} (hid : id ∉ described) :
    expand described owner id = .ok ds ↔
      id ≠ "" ∧ "" ∉ (Form.ofIdentity id).arguments ∧ ∃ frame arguments,
        (Form.ofIdentity id).frame.mapM (expand described id) = .ok frame ∧
        (Form.ofIdentity id).arguments.mapM (expand described id) = .ok arguments ∧
        ds = frame.flatten ++ arguments.flatten ++ [external id] := by
  constructor
  · intro h
    have hne : id ≠ "" := ne_empty_of_expand h
    rw [expand_of_new hne hid] at h
    obtain ⟨frame, hframe, h⟩ := except_bind_ok.1 h
    by_cases hargument : "" ∈ (Form.ofIdentity id).arguments
    · rw [if_pos hargument] at h
      cases h
    · rw [if_neg hargument] at h
      obtain ⟨arguments, harguments, h⟩ := except_bind_ok.1 h
      cases h
      exact ⟨hne, hargument, frame, arguments, hframe, harguments, rfl⟩
  · rintro ⟨hne, hargument, frame, arguments, hframe, harguments, rfl⟩
    rw [expand_of_new hne hid]
    refine except_bind_ok.2 ⟨frame, hframe, ?_⟩
    rw [if_neg hargument]
    exact except_bind_ok.2 ⟨arguments, harguments, rfl⟩

/-- What a reference brings in accounts for it and for all that comes with it. -/
theorem expand_ok {owner id : Identity} (h : expand described owner id = .ok ds) :
    Accounted described ds id ∧ SelfContained described ds := by
  -- The parts of an identity are shorter than it.
  induction hlength : id.toList.length using Nat.strongRecOn generalizing owner id ds with
  | ind n ih =>
    by_cases hid : id ∈ described
    · rw [expand_of_described (ne_empty_of_expand h) hid] at h
      cases h
      exact ⟨.inl hid, by simp, by simp⟩
    obtain ⟨-, -, frame, arguments, hframe, harguments, rfl⟩ := (expand_eq_ok_iff hid).1 h
    -- What the parts bring in, by induction.
    have hparts : ∀ (parts : List Identity) (brought : List (List Descriptor)),
        (∀ x ∈ parts, x.toList.length < n) →
        parts.mapM (expand described id) = .ok brought →
        (∀ x ∈ parts, Accounted described brought.flatten x) ∧
          SelfContained described brought.flatten := by
      intro parts brought hshort hbrought
      constructor
      · intro x hx
        obtain ⟨part, hpart, hexpand⟩ := exists_of_mapM hbrought hx
        refine (ih _ (hshort x hx) hexpand rfl).1.mono fun e he => ?_
        exact List.mem_flatten.2 ⟨part, hpart, he⟩
      · refine SelfContained.flatten fun part hpart => ?_
        obtain ⟨x, hx, hexpand⟩ := exists_of_mem_mapM hbrought hpart
        exact (ih _ (hshort x hx) hexpand rfl).2
    obtain ⟨hframeOf, hframe⟩ := hparts _ frame
      (fun x hx => hlength ▸ Form.length_frame_lt hx) hframe
    obtain ⟨hargumentsOf, harguments⟩ := hparts _ arguments
      (fun x hx => hlength ▸ Form.length_arguments_lt hx) harguments
    have hbefore := hframe.append harguments
    refine ⟨.inr (by simp), fun d hd => ?_, fun d hd t ht => ?_⟩
    · rcases List.mem_append.1 hd with hd | hd
      · exact hbefore.external d hd
      · rw [List.mem_singleton.1 hd, identity_external]
    · rcases List.mem_append.1 hd with hd | hd
      · exact (hbefore.links d hd t ht).mono fun e he => List.mem_append_left _ he
      · rw [List.mem_singleton.1 hd] at ht
        rcases mem_links_external.1 ht with ht | ht
        · exact (hframeOf t ht).mono fun e he => by simp [he]
        · exact (hargumentsOf t ht).mono fun e he => by simp [he]

/-- Dropping repetitions keeps a descriptor of every identity. -/
theorem mem_distinct {d : Descriptor} (h : ∀ d ∈ ds, d = external d.identity) :
    d ∈ distinct ds ↔ d ∈ ds := by
  have hfold : ∀ (ds acc : List Descriptor), (∀ d ∈ ds ++ acc, d = external d.identity) →
      (d ∈ ds.foldl (fun acc d => if acc.any (·.identity == d.identity) then acc else d :: acc) acc
        ↔ d ∈ ds ∨ d ∈ acc) := by
    intro ds
    induction ds with
    | nil => simp
    | cons e ds ih =>
      intro acc hacc
      rw [List.foldl_cons]
      split
      · next hany =>
        rw [ih _ fun d hd => hacc d (List.mem_cons_of_mem _ hd), List.mem_cons]
        refine ⟨fun hd => hd.imp_left .inr, fun hd => ?_⟩
        rcases hd with (rfl | hd) | hd
        · -- The one that is there already is the same, being made of the same identity.
          obtain ⟨e', he', heq⟩ := List.any_eq_true.1 hany
          have hsame : e' = d := by
            rw [hacc e' (by simp [he']), hacc d (by simp), eq_of_beq heq]
          exact .inr (hsame ▸ he')
        · exact .inl hd
        · exact .inr hd
      · rw [ih _ fun d hd => hacc d (by
          simp only [List.mem_append, List.mem_cons, List.cons_append] at hd ⊢
          tauto), List.mem_cons, List.mem_cons]
        tauto
  rw [distinct, List.mem_reverse, hfold ds [] (by simpa using h)]
  simp

/-- The external types of some described types account for all that these refer to. -/
theorem externalsOf_ok {types externals : List Descriptor} (h : externalsOf types = .ok externals) :
    (∀ d ∈ types, ∀ t ∈ d.links, Accounted (types.map (·.identity)) externals t) ∧
      SelfContained (types.map (·.identity)) externals := by
  unfold externalsOf at h
  obtain ⟨brought, hbrought, h⟩ := except_bind_ok.1 h
  cases h
  have hall : SelfContained (types.map (·.identity)) brought.flatten.flatten := by
    rw [List.flatten_flatten]
    refine .flatten fun part hpart => ?_
    obtain ⟨parts, hparts, rfl⟩ := List.mem_map.1 hpart
    obtain ⟨d, -, hparts⟩ := exists_of_mem_mapM hbrought hparts
    refine .flatten fun part hpart => ?_
    obtain ⟨t, -, hexpand⟩ := exists_of_mem_mapM hparts hpart
    exact (expand_ok hexpand).2
  have hmem := fun d => mem_distinct (d := d) hall.external
  refine ⟨fun d hd t ht => ?_, fun d hd => ?_, fun d hd t ht => ?_⟩
  · obtain ⟨parts, hmemparts, hparts⟩ := exists_of_mapM hbrought hd
    obtain ⟨part, hmempart, hexpand⟩ := exists_of_mapM hparts ht
    refine (expand_ok hexpand).1.mono fun e he => (hmem e).2 ?_
    exact List.mem_flatten.2 ⟨part, List.mem_flatten.2 ⟨parts, hmemparts, hmempart⟩, he⟩
  · exact hall.external d ((hmem d).1 hd)
  · exact (hall.links d ((hmem d).1 hd) t ht).mono fun e he => (hmem e).2 he

/-! ## §3. Described types -/

/-- No identity is described twice, or is one of those seen before. -/
theorem outlines_ok {seen : List Identity} {values : List Value}
    {outlined : List (Entries × Descriptor)} (h : outlines seen values = .ok outlined) :
    (outlined.map (·.2.identity)).Nodup ∧ ∀ e ∈ outlined, e.2.identity ∉ seen := by
  induction values generalizing seen outlined with
  | nil =>
    cases h
    exact ⟨.nil, by simp⟩
  | cons value values ih =>
    unfold outlines at h
    obtain ⟨⟨es, d⟩, -, h⟩ := except_bind_ok.1 h
    dsimp only at h
    split at h
    · cases h
    next hd =>
    obtain ⟨rest, hrest, h⟩ := except_bind_ok.1 h
    cases h
    -- The identities behind an entry avoid its own, as one that was seen.
    obtain ⟨hnodup, hseen⟩ := ih hrest
    refine ⟨?_, fun e he => ?_⟩
    · rw [List.map_cons, List.nodup_cons]
      refine ⟨fun hmem => ?_, hnodup⟩
      obtain ⟨e, he, heq⟩ := List.mem_map.1 hmem
      exact hseen e he (heq ▸ List.mem_cons_self)
    · rcases List.mem_cons.1 he with rfl | he
      · exact hd
      · exact fun hmem => hseen e he (List.mem_cons_of_mem _ hmem)

/-- An entry keeps the identity and the name of its outline, and marks no type as external. -/
theorem kept_of_complete {es : Entries} {d d' : Descriptor}
    (h : complete described es d = .ok d') :
    d'.identity = d.identity ∧ d'.name = d.name ∧ d'.space = d.space ∧
      d'.isExternal = d.isExternal := by
  unfold complete at h
  iterate 11 obtain ⟨_, -, h⟩ := except_bind_ok.1 h
  dsimp only at h
  split at h
  all_goals
    iterate 2 obtain ⟨_, -, h⟩ := except_bind_ok.1 h
    cases h
    exact ⟨rfl, rfl, rfl, rfl⟩

theorem identity_of_complete {es : Entries} {d d' : Descriptor}
    (h : complete described es d = .ok d') : d'.identity = d.identity :=
  (kept_of_complete h).1

theorem identities_of_complete {outlined : List (Entries × Descriptor)} {types : List Descriptor}
    (h : List.Forall₂ (fun e d => complete described e.1 e.2 = .ok d) outlined types) :
    types.map (·.identity) = outlined.map (·.2.identity) := by
  induction h with
  | nil => rfl
  | cons hd _ ih => rw [List.map_cons, List.map_cons, identity_of_complete hd, ih]

/-- The graph has every type of the dump, and describes all that it refers to. -/
structure Whole (dump : Dump) : Prop where
  has : ∀ d ∈ dump.types, dump.graph.Has d
  closed : dump.graph.Closed

theorem link_ok {entries : List Value} {types externals : List Descriptor}
    (h : link entries = .ok (types, externals)) :
    (types.map (·.identity)).Nodup ∧
      (∀ d ∈ types, ∀ t ∈ d.links, Accounted (types.map (·.identity)) externals t) ∧
      SelfContained (types.map (·.identity)) externals := by
  unfold link at h
  obtain ⟨outlined, houtlined, h⟩ := except_bind_ok.1 h
  obtain ⟨types', htypes, h⟩ := except_bind_ok.1 h
  obtain ⟨externals', hexternals, h⟩ := except_bind_ok.1 h
  obtain ⟨_, -, h⟩ := except_bind_ok.1 h
  cases h
  have hids := identities_of_complete (mapM_ok htypes)
  exact ⟨hids ▸ (outlines_ok houtlined).1, externalsOf_ok hexternals⟩

/-- Among descriptors of different identities each one is found. -/
theorem find?_of_nodup {d : Descriptor} (hd : d ∈ ds) (h : (ds.map (·.identity)).Nodup) :
    ds.find? (·.identity == d.identity) = some d := by
  induction ds with
  | nil => simp at hd
  | cons e ds ih =>
    rw [List.map_cons, List.nodup_cons] at h
    rcases List.mem_cons.1 hd with rfl | hd
    · rw [List.find?_cons, beq_self_eq_true]
    · have hne : (e.identity == d.identity) = false := by
        simp only [beq_eq_false_iff_ne]
        exact fun heq => h.1 (heq ▸ List.mem_map_of_mem hd)
      rw [List.find?_cons, hne]
      exact ih hd h.2

/-- A described type is found in front of the external ones. -/
theorem has_of_nodup {types externals : List Descriptor} {d : Descriptor} (hd : d ∈ types)
    (h : (types.map (·.identity)).Nodup) : Graph.Has ⟨types ++ externals⟩ d := by
  rw [Graph.Has, Graph.find?, List.find?_append, find?_of_nodup hd h]
  rfl

theorem whole_of_link {dump : Dump} {entries : List Value}
    (h : link entries = .ok (dump.types, dump.externals)) : dump.Whole := by
  obtain ⟨hnodup, htypes, hexternals⟩ := link_ok h
  have hknows : ∀ t, Accounted (dump.types.map (·.identity)) dump.externals t →
      dump.graph.Knows t := by
    intro t ht
    rw [Graph.Knows, Graph.find?, List.find?_isSome]
    rcases ht with ht | ht
    · obtain ⟨d, hd, rfl⟩ := List.mem_map.1 ht
      exact ⟨d, List.mem_append_left _ hd, beq_self_eq_true _⟩
    · exact ⟨external t, List.mem_append_right _ ht, by rw [identity_external, beq_self_eq_true]⟩
  constructor
  · exact fun d hd => has_of_nodup hd hnodup
  · rintro t ⟨d, hd, ht⟩
    -- A type of the graph is described or external, and either kind is accounted for.
    rcases List.mem_append.1 (Graph.mem_of_find? hd) with hd | hd
    · exact hknows t (htypes d hd t ht)
    · exact hknows t (hexternals.links d hd t ht)

/-- The types of a dump, and the external ones, are those that its entries are linked to. -/
theorem exists_link {defaultName : String} {source : Option String} {es : Entries} {dump : Dump}
    (h : ofEntries defaultName source es = .ok dump) :
    ∃ entries, link entries = .ok (dump.types, dump.externals) := by
  unfold ofEntries at h
  dsimp only at h
  repeat' split at h
  all_goals
    obtain ⟨entries, hentries, h⟩ := except_bind_ok.1 h
    first
      | cases hentries; done
      | obtain ⟨⟨types, externals⟩, hlink, h⟩ := except_bind_ok.1 h
        cases h
        exact ⟨entries, hlink⟩

/-- What a file holds is a dump only if its value is one. -/
theorem ofValue?_of_ofFile {path : Files.Path} {given : Option Value} {dump : Dump}
    (h : ofFile path given = .ok (.ok dump)) : ofValue? path given = .ok dump := by
  unfold ofFile at h
  split at h
  · split at h <;> cases h
  · next dump' hdump =>
    split at h
    · cases h
      exact hdump
    · cases h

theorem exists_link_of_load {tree : Files.Tree} {path : Files.Path} {dump : Dump}
    (h : load tree path = .ok (.ok dump)) :
    ∃ entries, link entries = .ok (dump.types, dump.externals) := by
  unfold load at h
  split at h
  · obtain ⟨given, -, h⟩ := except_bind_ok.1 h
    have hof := ofValue?_of_ofFile h
    unfold ofValue? at hof
    split at hof
    · cases hof
    · split at hof
      · exact exists_link hof
      · cases hof
  · cases h
  · cases h

/-- A dump that is loaded is whole. -/
theorem load_whole {tree : Files.Tree} {path : Files.Path} {dump : Dump}
    (h : load tree path = .ok (.ok dump)) : dump.Whole := by
  obtain ⟨entries, hlink⟩ := exists_link_of_load h
  exact whole_of_link hlink

end Dump

end EmmyStubs
