import Mathlib.Data.List.Nodup
import EmmyStubs.Proofs.Loading

/-! # Linked entries

    What becomes of the references of a dump that is accepted:

    * **`Occurs`**: a type occurs in a reference, as the whole of it or as a part of a part.  What
      is described is not taken apart.
    * **`mem_expand`**: a reference brings in just the external types that occur in it.
    * **`register`**: external types put into a table when they are first met, behind those that
      they are made of.  Reading all references one after the other fills the table with the
      external types of the dump (`externals_eq_registered`).
    * **`ofEntries_unambiguous`**: so the types are the entries in their order, and every type that
      occurs in a reference is found in one of the two tables, and only there.
-/

namespace EmmyStubs.Dump

variable {described : List Identity}

/-! ## §1. Types in a reference -/

/-- The identities that an identity is made of. -/
def partsOf (id : Identity) : List Identity :=
  (Form.ofIdentity id).frame ++ (Form.ofIdentity id).arguments

theorem length_partsOf_lt {id x : Identity} (h : x ∈ partsOf id) :
    x.toList.length < id.toList.length := by
  rcases List.mem_append.1 h with h | h
  · exact Form.length_frame_lt h
  · exact Form.length_arguments_lt h

theorem mem_links_external_iff {id t : Identity} : t ∈ (external id).links ↔ t ∈ partsOf id := by
  rw [mem_links_external, partsOf, List.mem_append]

/-- The second type is what the reference is about, or occurs in a part of it. -/
inductive Occurs (described : List Identity) : Identity → Identity → Prop
  | refl (id : Identity) : Occurs described id id
  | part {id x t : Identity} (hid : id ∉ described) (hx : x ∈ partsOf id)
      (ht : Occurs described x t) : Occurs described id t

theorem Occurs.trans {id t u : Identity} (h : Occurs described id t)
    (hu : Occurs described t u) : Occurs described id u := by
  induction h with
  | refl => exact hu
  | part hid hx _ ih => exact .part hid hx (ih hu)

theorem isExternal_external (id : Identity) : (external id).isExternal = true := by
  unfold external Form.descriptor
  split <;> rfl

/-- What a reference brings in: what its parts bring in, and the type itself behind them. -/
theorem expand_parts {owner id : Identity} {ds : List Descriptor}
    (h : expand described owner id = .ok ds) (hid : id ∉ described) :
    ∃ brought, List.Forall₂ (fun x part => expand described id x = .ok part) (partsOf id) brought ∧
      ds = brought.flatten ++ [external id] := by
  obtain ⟨-, -, frame, arguments, hframe, harguments, rfl⟩ := (expand_eq_ok_iff hid).1 h
  refine ⟨frame ++ arguments, List.rel_append (mapM_ok hframe) (mapM_ok harguments), ?_⟩
  rw [List.flatten_append]

/-- A reference brings in the external types that occur in it, and nothing else. -/
theorem mem_expand {owner id : Identity} {ds : List Descriptor} {d : Descriptor}
    (h : expand described owner id = .ok ds) :
    d ∈ ds ↔ ∃ t, Occurs described id t ∧ t ∉ described ∧ d = external t := by
  -- The parts of an identity are shorter than it.
  induction hlength : id.toList.length using Nat.strongRecOn generalizing owner id ds with
  | ind n ih =>
    by_cases hid : id ∈ described
    · have hnone : ds = [] := by
        rw [expand_of_described (ne_empty_of_expand h) hid] at h
        exact (Except.ok.inj h).symm
      refine iff_of_false (by simp [hnone]) ?_
      rintro ⟨t, ht, hnew, -⟩
      cases ht with
      | refl => exact hnew hid
      | part hnot => exact hnot hid
    obtain ⟨brought, hbrought, rfl⟩ := expand_parts h hid
    have hpart : ∀ {x part}, x ∈ partsOf id → expand described id x = .ok part →
        (d ∈ part ↔ ∃ t, Occurs described x t ∧ t ∉ described ∧ d = external t) :=
      fun hx hexpand => ih _ (hlength ▸ length_partsOf_lt hx) hexpand rfl
    rw [List.mem_append, List.mem_singleton, List.mem_flatten]
    constructor
    · rintro (⟨part, hmem, hd⟩ | rfl)
      · obtain ⟨i, hi, rfl⟩ := List.getElem_of_mem hmem
        have hi' : i < (partsOf id).length := hbrought.length_eq ▸ hi
        have hx := List.getElem_mem hi'
        obtain ⟨t, ht, hnew, hd⟩ := (hpart hx (hbrought.get hi' hi)).1 hd
        exact ⟨t, .part hid hx ht, hnew, hd⟩
      · exact ⟨id, .refl id, hid, rfl⟩
    · rintro ⟨t, ht, hnew, rfl⟩
      cases ht with
      | refl => exact .inr rfl
      | part _ hx ht =>
        obtain ⟨i, hi, rfl⟩ := List.getElem_of_mem hx
        have hi' : i < brought.length := hbrought.length_eq ▸ hi
        exact .inl ⟨_, List.getElem_mem hi',
          (hpart (List.getElem_mem hi) (hbrought.get hi hi')).2 ⟨t, ht, hnew, rfl⟩⟩

/-! ## §2. A table that is filled as references are met -/

/-- Puts the external types of a reference into a table, unless the type is described or there
    already: first those that it is made of, then the type itself. -/
def register (described : List Identity) (table : List Descriptor) (id : Identity) :
    List Descriptor :=
  if id ∈ described ∨ id ∈ table.map (·.identity) then table
  else
    (partsOf id).attach.foldl (fun table x => register described table x.1) table ++ [external id]
termination_by id.toList.length
decreasing_by exact length_partsOf_lt x.2

/-- Puts descriptors into a table, except those whose identity is there already. -/
def merge (table ds : List Descriptor) : List Descriptor :=
  ds.foldl (fun table d => if table.any (·.identity == d.identity) then table else table ++ [d])
    table

theorem distinct_eq_merge (ds : List Descriptor) : distinct ds = merge [] ds := by
  -- The fold gathers the descriptors back to front.
  have hfold : ∀ (ds acc : List Descriptor),
      (ds.foldl (fun acc d => if acc.any (·.identity == d.identity) then acc else d :: acc)
        acc).reverse = merge acc.reverse ds := by
    intro ds
    induction ds with
    | nil => intro acc; rfl
    | cons d ds ih =>
      intro acc
      unfold merge
      rw [List.foldl_cons, List.foldl_cons, List.any_reverse]
      split
      · exact ih acc
      · rw [← List.reverse_cons]
        exact ih (d :: acc)
  exact hfold ds []

theorem merge_append (table ds ds' : List Descriptor) :
    merge table (ds ++ ds') = merge (merge table ds) ds' :=
  List.foldl_append

/-- What is in a table already adds nothing to it. -/
theorem merge_of_subset {table ds : List Descriptor}
    (h : ∀ d ∈ ds, d.identity ∈ table.map (·.identity)) : merge table ds = table := by
  induction ds with
  | nil => rfl
  | cons d ds ih =>
    obtain ⟨e, he, heq⟩ := List.mem_map.1 (h d List.mem_cons_self)
    have hany : table.any (·.identity == d.identity) = true :=
      List.any_eq_true.2 ⟨e, he, beq_iff_eq.2 heq⟩
    unfold merge
    rw [List.foldl_cons, if_pos hany]
    exact ih fun e he => h e (List.mem_cons_of_mem d he)

theorem merge_external_of_new {table : List Descriptor} {id : Identity}
    (h : id ∉ table.map (·.identity)) : merge table [external id] = table ++ [external id] := by
  refine if_neg fun hany => ?_
  obtain ⟨d, hd, heq⟩ := List.any_eq_true.1 hany
  rw [identity_external, beq_iff_eq] at heq
  exact h (List.mem_map.2 ⟨d, hd, heq⟩)

/-- No identity is in a merged table twice. -/
theorem nodup_merge {table ds : List Descriptor} (h : (table.map (·.identity)).Nodup) :
    ((merge table ds).map (·.identity)).Nodup := by
  induction ds generalizing table with
  | nil => exact h
  | cons d ds ih =>
    unfold merge
    rw [List.foldl_cons]
    split
    · exact ih h
    · next hany =>
      refine ih ?_
      rw [List.map_append, List.nodup_append]
      refine ⟨h, List.pairwise_singleton _ _, ?_⟩
      rintro id hid id' hid' rfl
      obtain ⟨e, he, heq⟩ := List.mem_map.1 hid
      rw [List.map_singleton, List.mem_singleton] at hid'
      exact hany (List.any_eq_true.2 ⟨e, he, beq_iff_eq.2 (heq.trans hid')⟩)

/-- A table of external types that has all that its types are made of. -/
structure Filled (described : List Identity) (table : List Descriptor) : Prop where
  external : ∀ d ∈ table, d = external d.identity
  parts : ∀ d ∈ table, ∀ x ∈ partsOf d.identity, x ∈ described ∨ x ∈ table.map (·.identity)

theorem filled_nil : Filled described [] :=
  ⟨by simp, by simp⟩

/-- A type goes behind those that it is made of. -/
theorem filled_append {table : List Descriptor} (h : Filled described table) {id : Identity}
    (hparts : ∀ x ∈ partsOf id, x ∈ described ∨ x ∈ table.map (·.identity)) :
    Filled described (table ++ [external id]) := by
  refine ⟨fun d hd => ?_, fun d hd x hx => ?_⟩
  · rcases List.mem_append.1 hd with hd | hd
    · exact h.external d hd
    · rw [List.mem_singleton.1 hd, identity_external]
  · rw [List.map_append, List.mem_append, ← or_assoc]
    rcases List.mem_append.1 hd with hd | hd
    · exact .inl (h.parts d hd x hx)
    · rw [List.mem_singleton.1 hd, identity_external] at hx
      exact .inl (hparts x hx)

/-- What occurs in a reference to a type of the table is in the table. -/
theorem Filled.occurs {table : List Descriptor} (h : Filled described table) {id t : Identity}
    (ht : Occurs described id t) (hid : id ∈ described ∨ id ∈ table.map (·.identity)) :
    t ∈ described ∨ t ∈ table.map (·.identity) := by
  induction ht with
  | refl => exact hid
  | @part id x t hnot hx _ ih =>
    obtain ⟨d, hd, rfl⟩ := List.mem_map.1 (hid.resolve_left hnot)
    exact ih (h.parts d hd x hx)

theorem register_of_known {table : List Descriptor} {id : Identity}
    (h : id ∈ described ∨ id ∈ table.map (·.identity)) : register described table id = table := by
  rw [register, if_pos h]

theorem register_of_new {table : List Descriptor} {id : Identity}
    (h : ¬(id ∈ described ∨ id ∈ table.map (·.identity))) :
    register described table id
      = (partsOf id).foldl (register described) table ++ [external id] := by
  rw [register, if_neg h]
  conv_rhs => rw [← List.attach_map_subtype_val (partsOf id), List.foldl_map]

/-- A type that several references add is added by one of them. -/
theorem mem_foldl_register {ids : List Identity} {d : Descriptor} {P : Prop}
    (hstep : ∀ x ∈ ids, ∀ table, d ∈ register described table x → d ∈ table ∨ P)
    {table : List Descriptor} (h : d ∈ ids.foldl (register described) table) : d ∈ table ∨ P := by
  induction ids generalizing table with
  | nil => exact .inl h
  | cons x ids ih =>
    rcases ih (fun y hy => hstep y (List.mem_cons_of_mem x hy)) h with hd | hP
    · exact hstep x List.mem_cons_self table hd
    · exact .inr hP

/-- The identities that a reference adds are not longer than its own. -/
theorem length_le_of_mem_register {table : List Descriptor} {id : Identity} {d : Descriptor}
    (h : d ∈ register described table id) :
    d ∈ table ∨ d.identity.toList.length ≤ id.toList.length := by
  induction hlength : id.toList.length using Nat.strongRecOn generalizing table id with
  | ind n ih =>
    by_cases hid : id ∈ described ∨ id ∈ table.map (·.identity)
    · exact .inl (register_of_known hid ▸ h)
    rw [register_of_new hid, List.mem_append, List.mem_singleton] at h
    rcases h with h | rfl
    · refine mem_foldl_register (fun x hx table hd => ?_) h
      have hlt := hlength ▸ length_partsOf_lt hx
      exact (ih _ hlt hd rfl).imp_right fun hle => Nat.le_of_lt (Nat.lt_of_le_of_lt hle hlt)
    · rw [identity_external]
      exact .inr (Nat.le_of_eq hlength)

/-- The parts of a type are shorter than it, so they do not bring it in themselves. -/
theorem notMem_foldl_register {table : List Descriptor} {id : Identity}
    (h : id ∉ table.map (·.identity)) :
    id ∉ ((partsOf id).foldl (register described) table).map (·.identity) := by
  intro hmem
  obtain ⟨d, hd, rfl⟩ := List.mem_map.1 hmem
  have hold : d ∈ table ∨ False := by
    refine mem_foldl_register (fun x hx table hd => ?_) hd
    refine (length_le_of_mem_register hd).imp_right fun hle => ?_
    exact absurd hle (Nat.not_le_of_lt (length_partsOf_lt hx))
  exact h (List.mem_map_of_mem (hold.resolve_right id))

/-- What a reference makes of a table: what it brings in is merged with the table, which stays
    filled and has the type of the reference now. -/
structure Registers (described : List Identity) (table : List Descriptor) (ids : List Identity)
    (ds table' : List Descriptor) : Prop where
  merged : merge table ds = table'
  filled : Filled described table'
  known : ∀ id ∈ ids, id ∈ described ∨ id ∈ table'.map (·.identity)
  kept : ∀ id ∈ table.map (·.identity), id ∈ table'.map (·.identity)

/-- References that are registered one after the other. -/
theorem Registers.fold {table : List Descriptor} {ids : List Identity}
    {parts : List (List Descriptor)} {R : Identity → List Descriptor → Prop}
    (hall : List.Forall₂ R ids parts)
    (hstep : ∀ id part, id ∈ ids → R id part → ∀ table, Filled described table →
      Registers described table [id] part (register described table id))
    (h : Filled described table) :
    Registers described table ids parts.flatten (ids.foldl (register described) table) := by
  induction hall generalizing table with
  | nil => exact ⟨rfl, h, by simp, fun _ hid => hid⟩
  | @cons id part ids parts hpart _ ih =>
    have hfirst := hstep id part List.mem_cons_self hpart table h
    have hrest := ih (fun id' part' hid' => hstep id' part' (List.mem_cons_of_mem id hid'))
      hfirst.filled
    refine ⟨?_, hrest.filled, ?_, fun id' hid' => hrest.kept id' (hfirst.kept id' hid')⟩
    · rw [List.flatten_cons, merge_append, hfirst.merged]
      exact hrest.merged
    · intro id' hid'
      rcases List.mem_cons.1 hid' with rfl | hid'
      · exact (hfirst.known id' (List.mem_singleton_self id')).imp_right (hrest.kept id')
      · exact hrest.known id' hid'

/-- Registering a reference merges what it brings in with the table. -/
theorem registers_expand {owner id : Identity} {ds table : List Descriptor}
    (hds : expand described owner id = .ok ds) (h : Filled described table) :
    Registers described table [id] ds (register described table id) := by
  induction hlength : id.toList.length using Nat.strongRecOn generalizing owner id ds table with
  | ind n ih =>
    by_cases hid : id ∈ described ∨ id ∈ table.map (·.identity)
    · -- All that occurs in a reference to a known type is known.
      rw [register_of_known hid]
      refine ⟨merge_of_subset fun d hd => ?_, h, by simpa using hid, fun _ hid => hid⟩
      obtain ⟨t, ht, hnew, rfl⟩ := (mem_expand hds).1 hd
      rw [identity_external]
      exact (h.occurs ht hid).resolve_left hnew
    · obtain ⟨brought, hbrought, rfl⟩ := expand_parts hds fun hmem => hid (.inl hmem)
      have hparts := Registers.fold hbrought
        (fun x part hx hpart table htable =>
          ih _ (hlength ▸ length_partsOf_lt hx) hpart htable rfl) h
      -- Its parts are in the table by now, but the type is not, so it is put behind them.
      have hnew : id ∉ ((partsOf id).foldl (register described) table).map (·.identity) :=
        notMem_foldl_register fun hmem => hid (.inr hmem)
      rw [register_of_new hid]
      refine ⟨?_, filled_append hparts.filled hparts.known, fun t ht => ?_, fun t ht => ?_⟩
      · rw [merge_append, hparts.merged, merge_external_of_new hnew]
      · rw [List.mem_singleton.1 ht, List.map_append, List.map_singleton, identity_external]
        exact .inr (List.mem_append_right _ (List.mem_singleton_self id))
      · rw [List.map_append]
        exact List.mem_append_left _ (hparts.kept t ht)

/-- The external types of some described types are those that their references register. -/
theorem externals_eq_registered {types externals : List Descriptor}
    (h : externalsOf types = .ok externals) :
    externals
      = (types.flatMap (·.links)).foldl (register (types.map (·.identity))) [] := by
  unfold externalsOf at h
  obtain ⟨brought, hbrought, h⟩ := except_bind_ok.1 h
  cases h
  have heach : List.Forall₂ (List.Forall₂ fun id part =>
      ∃ owner, expand (types.map (·.identity)) owner id = .ok part)
      (types.map (·.links)) brought := by
    refine List.forall₂_map_left_iff.2 ((mapM_ok hbrought).imp fun d parts hparts => ?_)
    exact (mapM_ok hparts).imp fun id part hpart => ⟨d.identity, hpart⟩
  have hall := List.rel_flatten heach
  rw [← List.flatMap_def] at hall
  rw [distinct_eq_merge]
  refine (Registers.fold hall (fun id part _ hpart table htable => ?_) filled_nil).merged
  obtain ⟨owner, hpart⟩ := hpart
  exact registers_expand hpart htable

/-! ## §3. Entries -/

theorem nameOf_ne_empty {id : Identity} {given : Value} {name : String}
    (h : nameOf id given = .ok name) : name ≠ "" := by
  have hcheck : ∀ text : String,
      (if text = "" then throw ⟨some id, .badName⟩ else return text : Except Error String)
        = .ok name → name ≠ "" := by
    intro text htext
    split at htext
    · cases htext
    · next hne =>
      cases htext
      exact hne
  unfold nameOf at h
  dsimp only at h
  split at h
  · exact hcheck _ h
  · exact hcheck _ h
  · cases h

theorem spaceOf_ne_empty {s : List Char} : spaceOf s ≠ some "" := by
  unfold spaceOf
  split
  · simp
  · next hne => simpa using hne

theorem spaceIn_ne_empty {id : Identity} {given : Option Value} {space : Option String}
    (h : spaceIn id given = .ok space) : space ≠ some "" := by
  unfold spaceIn at h
  split at h
  · cases h
    exact spaceOf_ne_empty
  · cases h
    simp
  · next space' =>
    cases h
    by_cases hempty : space' = ""
    · simp [hempty]
    · simp [hempty]
  · cases h

/-- What an outline takes from an entry. -/
theorem outline_ok {value : Value} {es : Entries} {d : Descriptor}
    (h : outline value = .ok (es, d)) :
    value.entries? = some es ∧ Value.field es "id" = .str d.identity ∧ d.name ≠ "" ∧
      d.space ≠ some "" ∧ d.isExternal = false := by
  unfold outline at h
  split at h
  · next es' hentries =>
    dsimp only at h
    split at h
    · next id hfield =>
      split at h
      · cases h
      · obtain ⟨_, hid, h⟩ := except_bind_ok.1 h
        cases hid
        obtain ⟨name, hname, h⟩ := except_bind_ok.1 h
        obtain ⟨space, hspace, h⟩ := except_bind_ok.1 h
        obtain ⟨kind, -, h⟩ := except_bind_ok.1 h
        cases h
        exact ⟨hentries, hfield, nameOf_ne_empty hname, spaceIn_ne_empty hspace, rfl⟩
    · cases h
  · cases h

/-- Entries are accepted one by one, and as long as no identity comes twice. -/
theorem outlines_eq_ok {seen : List Identity} {values : List Value}
    {outlined : List (Entries × Descriptor)} :
    outlines seen values = .ok outlined ↔
      List.Forall₂ (fun value e => outline value = .ok e) values outlined ∧
        (outlined.map (·.2.identity)).Nodup ∧ ∀ e ∈ outlined, e.2.identity ∉ seen := by
  constructor
  · intro h
    refine ⟨?_, outlines_ok h⟩
    induction values generalizing seen outlined with
    | nil =>
      cases h
      exact .nil
    | cons value values ih =>
      unfold outlines at h
      obtain ⟨⟨es, d⟩, hfirst, h⟩ := except_bind_ok.1 h
      dsimp only at h
      split at h
      · cases h
      · obtain ⟨rest, hrest, h⟩ := except_bind_ok.1 h
        cases h
        exact .cons hfirst (ih hrest)
  · rintro ⟨hall, hnodup, hseen⟩
    induction hall generalizing seen with
    | nil => rfl
    | @cons value e values rest hfirst _ ih =>
      rw [List.map_cons, List.nodup_cons] at hnodup
      have hrest : outlines (e.2.identity :: seen) values = .ok rest := by
        refine ih hnodup.2 fun e' he' hmem => ?_
        rcases List.mem_cons.1 hmem with heq | hmem
        · exact hnodup.1 (heq ▸ List.mem_map_of_mem he')
        · exact hseen e' (List.mem_cons_of_mem e he') hmem
      unfold outlines
      refine except_bind_ok.2 ⟨e, hfirst, ?_⟩
      obtain ⟨es, d⟩ := e
      have hd : d.identity ∉ seen := hseen (es, d) List.mem_cons_self
      dsimp only
      rw [if_neg hd]
      exact except_bind_ok.2 ⟨rest, hrest, rfl⟩

/-- The external types of a dump are those that occur in the references of its types. -/
theorem mem_externals {types externals : List Descriptor} (h : externalsOf types = .ok externals)
    {d : Descriptor} :
    d ∈ externals ↔ ∃ e ∈ types, ∃ r ∈ e.links, ∃ t, Occurs (types.map (·.identity)) r t ∧
      t ∉ types.map (·.identity) ∧ d = external t := by
  unfold externalsOf at h
  obtain ⟨brought, hbrought, h⟩ := except_bind_ok.1 h
  cases h
  have hmem : ∀ d, d ∈ brought.flatten.flatten ↔ ∃ e ∈ types, ∃ r ∈ e.links, ∃ t,
      Occurs (types.map (·.identity)) r t ∧ t ∉ types.map (·.identity) ∧ d = external t := by
    intro d
    rw [List.mem_flatten]
    constructor
    · rintro ⟨part, hpart, hd⟩
      obtain ⟨parts, hparts, hpart⟩ := List.mem_flatten.1 hpart
      obtain ⟨e, he, hparts⟩ := exists_of_mem_mapM hbrought hparts
      obtain ⟨r, hr, hexpand⟩ := exists_of_mem_mapM hparts hpart
      exact ⟨e, he, r, hr, (mem_expand hexpand).1 hd⟩
    · rintro ⟨e, he, r, hr, ht⟩
      obtain ⟨parts, hmemparts, hparts⟩ := exists_of_mapM hbrought he
      obtain ⟨part, hmempart, hexpand⟩ := exists_of_mapM hparts hr
      exact ⟨part, List.mem_flatten.2 ⟨parts, hmemparts, hmempart⟩, (mem_expand hexpand).2 ht⟩
  refine (mem_distinct fun d hd => ?_).trans (hmem d)
  obtain ⟨e, -, r, -, t, -, -, rfl⟩ := (hmem d).1 hd
  rw [identity_external]

theorem nodup_externals {types externals : List Descriptor}
    (h : externalsOf types = .ok externals) : (externals.map (·.identity)).Nodup := by
  unfold externalsOf at h
  obtain ⟨brought, -, h⟩ := except_bind_ok.1 h
  cases h
  rw [distinct_eq_merge]
  exact nodup_merge .nil

/-- An external type is not described as well. -/
theorem identity_notMem_of_mem_externals {types externals : List Descriptor}
    (h : externalsOf types = .ok externals) {d : Descriptor} (hd : d ∈ externals) :
    d.identity ∉ types.map (·.identity) := by
  obtain ⟨e, -, r, -, t, -, hnew, rfl⟩ := (mem_externals h).1 hd
  rwa [identity_external]

/-! ## §4. Whole dumps -/

/-- The entries that the map of a dump lists. -/
def entriesIn (es : Entries) : List Value :=
  (Value.field es "types").items?.getD []

theorem checkCycles_eq_ok {g : Graph} {ds : List Descriptor} :
    checkCycles g ds = .ok () ↔ ∀ d ∈ ds, cycle? g d = none := by
  induction ds with
  | nil => simp [checkCycles, pure, Except.pure]
  | cons d ds ih =>
    unfold checkCycles
    cases hcycle : cycle? g d with
    | some flaw =>
      refine iff_of_false (fun h => ?_) fun h => ?_
      · cases h
      · rw [h d List.mem_cons_self] at hcycle
        cases hcycle
    | none => simp [ih, hcycle]

/-- What the entries of a dump go through one after the other. -/
theorem link_eq_ok {values : List Value} {types externals : List Descriptor} :
    link values = .ok (types, externals) ↔
      ∃ outlined, outlines [] values = .ok outlined ∧
        List.Forall₂ (fun e d => complete (types.map (·.identity)) e.1 e.2 = .ok d)
          outlined types ∧
        externalsOf types = .ok externals ∧
        checkCycles ⟨types ++ externals⟩ types = .ok () := by
  constructor
  · intro h
    unfold link at h
    obtain ⟨outlined, houtlined, h⟩ := except_bind_ok.1 h
    obtain ⟨types', htypes, h⟩ := except_bind_ok.1 h
    obtain ⟨externals', hexternals, h⟩ := except_bind_ok.1 h
    obtain ⟨_, hcycles, h⟩ := except_bind_ok.1 h
    cases h
    have htypes := mapM_ok htypes
    exact ⟨outlined, houtlined, identities_of_complete htypes ▸ htypes, hexternals, hcycles⟩
  · rintro ⟨outlined, houtlined, htypes, hexternals, hcycles⟩
    unfold link
    refine except_bind_ok.2 ⟨outlined, houtlined, except_bind_ok.2 ⟨types, ?_, ?_⟩⟩
    · rw [← identities_of_complete htypes]
      exact mapM_of_forall₂ htypes
    · exact except_bind_ok.2 ⟨externals, hexternals, except_bind_ok.2 ⟨(), hcycles, rfl⟩⟩

/-- No identity is described twice, external twice, or both described and external. -/
theorem nodup_of_link {values : List Value} {types externals : List Descriptor}
    (h : link values = .ok (types, externals)) :
    ((types ++ externals).map (·.identity)).Nodup := by
  obtain ⟨outlined, -, -, hexternals, -⟩ := link_eq_ok.1 h
  rw [List.map_append, List.nodup_append]
  refine ⟨(link_ok h).1, nodup_externals hexternals, ?_⟩
  rintro id hid id' hid' rfl
  obtain ⟨d, hd, rfl⟩ := List.mem_map.1 hid'
  exact identity_notMem_of_mem_externals hexternals hd hid

/-- What a described type has from the outline of its entry. -/
theorem described_of_link {values : List Value} {types externals : List Descriptor}
    (h : link values = .ok (types, externals)) {d : Descriptor} (hd : d ∈ types) :
    d.name ≠ "" ∧ d.space ≠ some "" ∧ d.isExternal = false := by
  obtain ⟨outlined, houtlined, hcomplete, -, -⟩ := link_eq_ok.1 h
  obtain ⟨e, he, hcompleted⟩ := exists_of_mem_mapM (mapM_of_forall₂ hcomplete) hd
  obtain ⟨value, -, houtline⟩ :=
    exists_of_mem_mapM (mapM_of_forall₂ (outlines_eq_ok.1 houtlined).1) he
  obtain ⟨-, hname, hspace, hexternal⟩ := kept_of_complete hcompleted
  rw [hname, hspace, hexternal]
  exact (outline_ok houtline).2.2

/-- The external types are marked, and the described ones are not. -/
theorem isExternal_iff_of_link {values : List Value} {types externals : List Descriptor}
    (h : link values = .ok (types, externals)) {d : Descriptor} (hd : d ∈ types ++ externals) :
    d.isExternal = true ↔ d ∈ externals := by
  obtain ⟨outlined, houtlined, hcomplete, hexternals, -⟩ := link_eq_ok.1 h
  constructor
  · intro htrue
    refine (List.mem_append.1 hd).resolve_left fun htype => ?_
    rw [(described_of_link h htype).2.2] at htrue
    cases htrue
  · intro hmem
    obtain ⟨e, -, r, -, t, -, -, rfl⟩ := (mem_externals hexternals).1 hmem
    exact isExternal_external t

theorem ofEntries_eq_ok {defaultName : String} {source : Option String} {es : Entries}
    {dump : Dump} :
    ofEntries defaultName source es = .ok dump ↔
      ((Value.field es "types").items? ≠ none ∨ (Value.field es "types").truthy = false) ∧
      link (entriesIn es) = .ok (dump.types, dump.externals) ∧ dump.source = source ∧
      dump.name = if (Value.field es "assembly").truthy then (Value.field es "assembly").text
        else defaultName := by
  obtain ⟨name, source', types, externals⟩ := dump
  have hlink : ∀ values, (link values >>= fun found => Pure.pure (⟨if
        (Value.field es "assembly").truthy then (Value.field es "assembly").text else defaultName,
        source, found.1, found.2⟩ : Dump)) = .ok ⟨name, source', types, externals⟩ ↔
      link values = .ok (types, externals) ∧ source' = source ∧
        name = if (Value.field es "assembly").truthy then (Value.field es "assembly").text
          else defaultName := by
    intro values
    constructor
    · intro h
      obtain ⟨⟨types', externals'⟩, hlink, h⟩ := except_bind_ok.1 h
      cases h
      exact ⟨hlink, rfl, rfl⟩
    · rintro ⟨hlink, rfl, rfl⟩
      exact except_bind_ok.2 ⟨_, hlink, rfl⟩
  unfold ofEntries entriesIn
  dsimp only
  cases hitems : (Value.field es "types").items? with
  | some items =>
    have hsome : some items ≠ none ∨ (Value.field es "types").truthy = false := .inl (by simp)
    rw [← hlink, and_iff_right hsome]
    rfl
  | none =>
    cases htruthy : (Value.field es "types").truthy with
    | true =>
      refine iff_of_false (fun h => ?_) fun h => ?_
      · cases h
      · rcases h.1 with hnone | hfalse
        · exact hnone rfl
        · cases hfalse
    | false =>
      rw [← hlink, and_iff_right (.inr rfl)]
      rfl

/-- An entry is the one of a type: it has the identity of the type, and reading it when the
    identities in `described` are known gives the type. -/
def EntryOf (described : List Identity) (value : Value) (d : Descriptor) : Prop :=
  ∃ es o, value.entries? = some es ∧ Value.field es "id" = .str d.identity ∧
    outline value = .ok (es, o) ∧ complete described es o = .ok d

/-- The types of a dump are its entries, and whatever they refer to is one type of the dump. -/
structure Unambiguous (values : List Value) (dump : Dump) : Prop where
  /-- The types are the entries in their order. -/
  entries : List.Forall₂ (EntryOf (dump.types.map (·.identity))) values dump.types
  /-- No identity is described twice, external twice, or both described and external. -/
  distinct : ((dump.types ++ dump.externals).map (·.identity)).Nodup
  /-- The external types are marked as such. -/
  marked : ∀ d ∈ dump.types ++ dump.externals, d.isExternal = true ↔ d ∈ dump.externals
  /-- They are those that the references of the types register, in this order. -/
  registered : dump.externals
    = (dump.types.flatMap (·.links)).foldl (register (dump.types.map (·.identity))) []
  /-- What occurs in a reference of any type leads to the only descriptor of its identity, which
      is either described or external. -/
  resolved : ∀ d ∈ dump.types ++ dump.externals, ∀ r ∈ d.links, ∀ t,
    Occurs (dump.types.map (·.identity)) r t →
      ∃ e, dump.graph.find? t = some e ∧ Xor (e ∈ dump.types) (e ∈ dump.externals) ∧
        ∀ e' ∈ dump.types ++ dump.externals, e'.identity = t → e' = e

theorem entryOf_of_outlined {values : List Value} {outlined : List (Entries × Descriptor)}
    {types : List Descriptor}
    (houtlined : List.Forall₂ (fun value e => outline value = .ok e) values outlined)
    (htypes : List.Forall₂ (fun e d => complete described e.1 e.2 = .ok d) outlined types) :
    List.Forall₂ (EntryOf described) values types := by
  induction houtlined generalizing types with
  | nil =>
    cases htypes
    exact .nil
  | @cons value e values outlined hfirst _ ih =>
    obtain ⟨es, o⟩ := e
    cases htypes with
    | cons hd htypes =>
      obtain ⟨hentries, hid, -⟩ := outline_ok hfirst
      rw [← identity_of_complete hd] at hid
      exact .cons ⟨es, o, hentries, hid, hfirst, hd⟩ (ih htypes)

/-- What occurs in a reference is described or external, also where an external type refers
    to it. -/
theorem exists_of_occurs {types externals : List Descriptor}
    (h : externalsOf types = .ok externals) {d : Descriptor} (hd : d ∈ types ++ externals)
    {r t : Identity} (hr : r ∈ d.links) (ht : Occurs (types.map (·.identity)) r t) :
    ∃ e ∈ types ++ externals, e.identity = t := by
  by_cases hdescribed : t ∈ types.map (·.identity)
  · obtain ⟨e, he, rfl⟩ := List.mem_map.1 hdescribed
    exact ⟨e, List.mem_append_left _ he, rfl⟩
  · refine ⟨external t, List.mem_append_right _ ((mem_externals h).2 ?_), identity_external t⟩
    rcases List.mem_append.1 hd with hd | hd
    · exact ⟨d, hd, r, hr, t, ht, hdescribed, rfl⟩
    · -- The external type occurs in a reference itself, so what occurs in its parts does too.
      obtain ⟨e, he, s, hs, u, hu, hnew, rfl⟩ := (mem_externals h).1 hd
      have hpart := mem_links_external_iff.1 hr
      exact ⟨e, he, s, hs, t, hu.trans (.part hnew hpart ht), hdescribed, rfl⟩

/-- A dump that is accepted is unambiguous. -/
theorem ofEntries_unambiguous {defaultName : String} {source : Option String} {es : Entries}
    {dump : Dump} (h : ofEntries defaultName source es = .ok dump) :
    dump.Unambiguous (entriesIn es) := by
  obtain ⟨-, hlink, -⟩ := ofEntries_eq_ok.1 h
  obtain ⟨outlined, houtlined, hcomplete, hexternals, -⟩ := link_eq_ok.1 hlink
  have hdistinct := nodup_of_link hlink
  refine
    { entries := entryOf_of_outlined (outlines_eq_ok.1 houtlined).1 hcomplete
      distinct := hdistinct
      marked := fun d hd => isExternal_iff_of_link hlink hd
      registered := externals_eq_registered hexternals
      resolved := fun d hd r hr t ht => ?_ }
  obtain ⟨e, he, rfl⟩ := exists_of_occurs hexternals hd hr ht
  -- The identities are distinct, so what is found is the only one, in one of the tables.
  have hnew : e ∈ dump.externals → e ∉ dump.types := fun hmem hmem' =>
    identity_notMem_of_mem_externals hexternals hmem (List.mem_map_of_mem hmem')
  refine ⟨e, find?_of_nodup he hdistinct, ?_, fun e' he' heq => ?_⟩
  · rcases List.mem_append.1 he with hmem | hmem
    · exact .inl ⟨hmem, fun hmem' => hnew hmem' hmem⟩
    · exact .inr ⟨hmem, hnew hmem⟩
  · exact List.inj_on_of_nodup_map hdistinct he' he heq

/-- A dump whose first entry refers to a later one inside an array inside an argument of what is
    passed by reference, and whose last entry refers to the first one. -/
def tillEntries : Entries :=
  [(.str "types", .list [
    .map [(.str "id", .str "Shop.Till"), (.str "fields", .list [
      .map [(.str "name", .str "open"),
        (.str "type", .str "System.Nullable`1[[Shop.Crate+Box[,], Shop]]&")]])],
    .map [(.str "id", .str "Shop.Crate")],
    .map [(.str "id", .str "Shop.Lid"), (.str "base_type", .str "Shop.Till")]])]

theorem tillEntries_unambiguous : ∃ dump, ofEntries "Shop" none tillEntries = .ok dump ∧
    dump.types.map (·.identity) = ["Shop.Till", "Shop.Crate", "Shop.Lid"] ∧
    dump.externals.map (·.identity) = ["System.Nullable`1", "Shop.Crate+Box", "Shop.Crate+Box[,]",
      "System.Nullable`1[[Shop.Crate+Box[,], Shop]]",
      "System.Nullable`1[[Shop.Crate+Box[,], Shop]]&"] ∧
    dump.Unambiguous (entriesIn tillEntries) := by
  have hfacts : (ofEntries "Shop" none tillEntries).toOption.map (fun dump =>
      (dump.types.map (·.identity), dump.externals.map (·.identity)))
      = some (["Shop.Till", "Shop.Crate", "Shop.Lid"], ["System.Nullable`1", "Shop.Crate+Box",
        "Shop.Crate+Box[,]", "System.Nullable`1[[Shop.Crate+Box[,], Shop]]",
        "System.Nullable`1[[Shop.Crate+Box[,], Shop]]&"]) := by
    decide +kernel
  obtain ⟨dump, hdump, hfacts⟩ := Option.map_eq_some_iff.1 hfacts
  rw [toOption_eq_some_iff] at hdump
  obtain ⟨htypes, hexternals⟩ := Prod.mk.inj hfacts
  exact ⟨dump, hdump, htypes, hexternals, ofEntries_unambiguous hdump⟩

end EmmyStubs.Dump
