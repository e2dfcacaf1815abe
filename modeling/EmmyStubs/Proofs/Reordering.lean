import Mathlib.Data.List.Perm.Basic
import EmmyStubs.Proofs.Linking

/-! # Entries in another order

    The entries of a dump may come in any order.

    * **`complete_congr`**: an entry is read in the same way whenever the same identities are
      described, in whatever order.
    * **`cycle?_congr`**: a type runs into the same cycle in every graph that finds the same types.
    * **`ofEntries_perm`**: so a dump is accepted in one order exactly if it is in the other, and
      then all described and all external types are the same.
-/

namespace EmmyStubs.Dump

/-! ## §1. Entries -/

section

variable {described described' : List Identity} (h : ∀ id, id ∈ described ↔ id ∈ described')
include h

theorem expand_congr (owner id : Identity) :
    expand described owner id = expand described' owner id := by
  -- The parts of an identity are shorter than it.
  induction hlength : id.toList.length using Nat.strongRecOn generalizing owner id with
  | ind n ih =>
    have hframe : (fun x : {x // x ∈ (Form.ofIdentity id).frame} => expand described id x.1)
        = fun x => expand described' id x.1 := by
      funext x
      exact ih _ (hlength ▸ Form.length_frame_lt x.2) id x.1 rfl
    have harguments : (fun x : {x // x ∈ (Form.ofIdentity id).arguments} =>
        expand described id x.1) = fun x => expand described' id x.1 := by
      funext x
      exact ih _ (hlength ▸ Form.length_arguments_lt x.2) id x.1 rfl
    rw [expand, expand, hframe, harguments]
    simp only [h]

theorem Occurs.congr {r t : Identity} (ht : Occurs described r t) : Occurs described' r t := by
  induction ht with
  | refl => exact .refl _
  | part hid hx _ ih => exact .part (fun hmem => hid ((h _).2 hmem)) hx ih

end

namespace Scope

/-- Two scopes that take the same references, and blame the same type for the others. -/
structure Alike (s s' : Scope) : Prop where
  owner : s.owner = s'.owner
  reference : s.reference = s'.reference

namespace Alike

variable {s s' : Scope} (h : Alike s s')
include h

theorem fail {α : Type} (flaw : Flaw) : (s.fail flaw : Except Error α) = s'.fail flaw := by
  unfold Scope.fail
  rw [h.owner]

theorem listOf (what : String) : s.listOf what = s'.listOf what := by
  funext given
  unfold Scope.listOf
  rw [h.fail]

theorem member (what : String) : s.member what = s'.member what := by
  funext raw
  unfold Scope.member
  rw [h.fail]

theorem memberName (what : String) : s.memberName what = s'.memberName what := by
  funext es
  unfold Scope.memberName
  rw [h.fail]

theorem access : s.access = s'.access := by
  funext given
  unfold Scope.access
  simp only [h.fail]

theorem optional : s.optional = s'.optional := by
  funext given
  unfold Scope.optional
  rw [h.reference]

theorem required (what : String) : s.required what = s'.required what := by
  funext given
  unfold Scope.required
  rw [h.reference, h.fail]

theorem references : s.references = s'.references := by
  funext given
  unfold Scope.references
  rw [h.reference, h.listOf]

theorem parameter : s.parameter = s'.parameter := by
  funext raw
  unfold Scope.parameter
  rw [h.required, h.member, h.fail]

theorem parameters (what : String) : s.parameters what = s'.parameters what := by
  funext es
  unfold Scope.parameters
  rw [h.parameter, h.listOf]

theorem field : s.field = s'.field := by
  funext raw
  unfold Scope.field
  rw [h.required, h.member, h.memberName, h.access]

theorem property : s.property = s'.property := by
  funext raw
  unfold Scope.property
  rw [h.required, h.parameters, h.member, h.memberName, h.access]

theorem method (defaultName : Option String) : s.method defaultName = s'.method defaultName := by
  funext raw
  unfold Scope.method
  rw [h.parameters, h.optional, h.references, h.member, h.memberName, h.access]

theorem constant : s.constant = s'.constant := by
  funext e
  unfold Scope.constant
  simp only [h.fail]

theorem constants : s.constants = s'.constants := by
  funext given
  unfold Scope.constants
  rw [h.constant, h.member, h.fail]

theorem genericParameter : s.genericParameter = s'.genericParameter := by
  funext given
  unfold Scope.genericParameter
  rw [h.references, h.fail]

theorem members {α : Type} (what : String) (read : Value → Except Error α) :
    s.members what read = s'.members what read := by
  funext es
  unfold Scope.members
  rw [h.listOf]

end Alike

theorem alike_of_mem_iff {described described' : List Identity}
    (h : ∀ id, id ∈ described ↔ id ∈ described') (owner : Identity) :
    Alike ⟨described, owner⟩ ⟨described', owner⟩ where
  owner := rfl
  reference := by
    funext given
    unfold Scope.reference
    simp only [expand_congr h]
    rfl

end Scope

/-- An entry is read alike whenever the same identities are described. -/
theorem complete_congr {described described' : List Identity}
    (h : ∀ id, id ∈ described ↔ id ∈ described') (es : Entries) (d : Descriptor) :
    complete described es d = complete described' es d := by
  have halike := Scope.alike_of_mem_iff h d.identity
  unfold complete
  dsimp only
  rw [halike.optional, halike.references, halike.genericParameter, halike.field, halike.property,
    halike.method, halike.method, halike.method, halike.members, halike.members, halike.members,
    halike.members, halike.constants]

/-! ## §2. Lists -/

/-- What is computed for each member of a list is computed in any order. -/
theorem exists_mapM_of_perm {ε α β : Type} {f : α → Except ε β} {l l' : List α} {results : List β}
    (hl : l.Perm l') (h : l.mapM f = .ok results) :
    ∃ results', l'.mapM f = .ok results' ∧ results.Perm results' := by
  obtain ⟨results', hresults', hperm⟩ := List.perm_comp_forall₂ hl.symm (mapM_ok h)
  exact ⟨results', mapM_of_forall₂ hresults', hperm.symm⟩

theorem exists_outlines_of_perm {values values' : List Value}
    {outlined : List (Entries × Descriptor)} (hvalues : values.Perm values')
    (h : outlines [] values = .ok outlined) :
    ∃ outlined', outlines [] values' = .ok outlined' ∧ outlined.Perm outlined' := by
  obtain ⟨hall, hnodup, -⟩ := outlines_eq_ok.1 h
  obtain ⟨outlined', hall', hperm⟩ := List.perm_comp_forall₂ hvalues.symm hall
  have hnodup' := ((hperm.map (·.2.identity)).nodup_iff).2 hnodup
  exact ⟨outlined', outlines_eq_ok.2 ⟨hall', hnodup', by simp⟩, hperm.symm⟩

theorem exists_externalsOf_of_perm {types types' externals : List Descriptor}
    (htypes : types.Perm types') (h : externalsOf types = .ok externals) :
    ∃ externals', externalsOf types' = .ok externals' ∧ externals.Perm externals' := by
  have hids : ∀ id, id ∈ types.map (·.identity) ↔ id ∈ types'.map (·.identity) :=
    fun id => (htypes.map _).mem_iff
  have hexpand : expand (types.map (·.identity)) = expand (types'.map (·.identity)) :=
    funext₂ (expand_congr hids)
  have hexternals := h
  unfold externalsOf at h
  dsimp only at h
  rw [hexpand] at h
  obtain ⟨brought, hbrought, h⟩ := except_bind_ok.1 h
  obtain ⟨brought', hbrought', -⟩ := exists_mapM_of_perm htypes hbrought
  have hexternals' : externalsOf types' = .ok (distinct brought'.flatten.flatten) :=
    except_bind_ok.2 ⟨brought', hbrought', rfl⟩
  refine ⟨_, hexternals', ?_⟩
  -- Neither table has a type twice, and the same types occur in the references of both lists.
  rw [List.perm_ext_iff_of_nodup (nodup_externals hexternals).of_map
    (nodup_externals hexternals').of_map]
  intro d
  rw [mem_externals hexternals, mem_externals hexternals']
  constructor
  · rintro ⟨e, he, r, hr, t, ht, hnew, rfl⟩
    exact ⟨e, htypes.mem_iff.1 he, r, hr, t, ht.congr hids, fun hmem => hnew ((hids t).2 hmem), rfl⟩
  · rintro ⟨e, he, r, hr, t, ht, hnew, rfl⟩
    exact ⟨e, htypes.mem_iff.2 he, r, hr, t, ht.congr fun id => (hids id).symm,
      fun hmem => hnew ((hids t).1 hmem), rfl⟩

/-! ## §3. Cycles -/

theorem revisits_congr {g g' : Graph} (h : ∀ id, g.find? id = g'.find? id)
    (next : Descriptor → Option Identity) (seen : List Identity) (start : Option Identity) :
    g.revisits next seen start = g'.revisits next seen start := by
  fun_induction g.revisits next seen start with
  | case1 => rw [Graph.revisits]
  | case2 seen id hseen => rw [Graph.revisits, dif_pos hseen]
  | case3 seen id hseen hfind =>
    rw [Graph.revisits, dif_neg hseen]
    split
    · rfl
    · next d hfind' =>
      rw [← h id, hfind] at hfind'
      cases hfind'
  | case4 seen id hseen d hfind ih =>
    rw [Graph.revisits, dif_neg hseen]
    split
    · next hfind' =>
      rw [← h id, hfind] at hfind'
      cases hfind'
    · next d' hfind' =>
      rw [← h id, hfind] at hfind'
      cases hfind'
      exact ih

theorem cycle?_congr {g g' : Graph} (h : ∀ id, g.find? id = g'.find? id) (d : Descriptor) :
    cycle? g d = cycle? g' d := by
  unfold cycle?
  rw [revisits_congr h, revisits_congr h]

/-- Among descriptors of different identities the same one is found in any order. -/
theorem find?_eq_of_perm {ds ds' : List Descriptor} (hds : ds.Perm ds')
    (h : (ds.map (·.identity)).Nodup) (id : Identity) :
    ds.find? (·.identity == id) = ds'.find? (·.identity == id) := by
  cases hfind : ds.find? (·.identity == id) with
  | some d =>
    have hd := List.mem_of_find?_eq_some hfind
    obtain rfl : d.identity = id := by simpa using List.find?_some hfind
    exact (find?_of_nodup (hds.mem_iff.1 hd) ((hds.map _).nodup_iff.1 h)).symm
  | none =>
    rw [List.find?_eq_none] at hfind
    exact (List.find?_eq_none.2 fun d hd => hfind d (hds.mem_iff.2 hd)).symm

/-! ## §4. Whole dumps -/

/-- Two dumps of the same types, which may come in another order. -/
structure Reordered (dump dump' : Dump) : Prop where
  name : dump.name = dump'.name
  source : dump.source = dump'.source
  types : dump.types.Perm dump'.types
  externals : dump.externals.Perm dump'.externals
  /-- An identity leads to the same descriptor. -/
  found : ∀ id, dump.graph.find? id = dump'.graph.find? id

theorem exists_link_of_perm {values values' : List Value} {types externals : List Descriptor}
    (hvalues : values.Perm values') (h : link values = .ok (types, externals)) :
    ∃ types' externals', link values' = .ok (types', externals') ∧ types.Perm types' ∧
      externals.Perm externals' := by
  obtain ⟨outlined, houtlined, hcomplete, hexternals, hcycles⟩ := link_eq_ok.1 h
  obtain ⟨outlined', houtlined', houtlines⟩ := exists_outlines_of_perm hvalues houtlined
  obtain ⟨types', hcomplete', htypes⟩ := List.perm_comp_forall₂ houtlines.symm hcomplete
  -- The same identities are described, so every entry still gives the type that it gave.
  have hids : ∀ id, id ∈ types.map (·.identity) ↔ id ∈ types'.map (·.identity) :=
    fun id => (htypes.symm.map _).mem_iff
  obtain ⟨externals', hexternals', hexternalsPerm⟩ :=
    exists_externalsOf_of_perm htypes.symm hexternals
  have hfound := find?_eq_of_perm (htypes.symm.append hexternalsPerm) (nodup_of_link h)
  refine ⟨types', externals', link_eq_ok.2 ⟨outlined', houtlined', ?_, hexternals', ?_⟩,
    htypes.symm, hexternalsPerm⟩
  · exact hcomplete'.imp fun e d hd => complete_congr hids e.1 e.2 ▸ hd
  · rw [checkCycles_eq_ok] at hcycles ⊢
    intro d hd
    rw [← cycle?_congr (g := ⟨types ++ externals⟩) hfound d]
    exact hcycles d (htypes.mem_iff.1 hd)

section

variable {defaultName : String} {source : Option String} {es es' : Entries}
  {values values' : List Value}

/-- A dump that is accepted is accepted in any order. -/
theorem exists_reordered (hvalues : (Value.field es "types").items? = some values)
    (hvalues' : (Value.field es' "types").items? = some values') (hperm : values.Perm values')
    (hname : Value.field es "assembly" = Value.field es' "assembly") {dump : Dump}
    (h : ofEntries defaultName source es = .ok dump) :
    ∃ dump', ofEntries defaultName source es' = .ok dump' ∧ dump.Reordered dump' := by
  obtain ⟨-, hlink, hsource, hdumpName⟩ := ofEntries_eq_ok.1 h
  have hin : entriesIn es = values := by rw [entriesIn, hvalues, Option.getD_some]
  have hin' : entriesIn es' = values' := by rw [entriesIn, hvalues', Option.getD_some]
  rw [hin] at hlink
  obtain ⟨types', externals', hlink', htypes, hexternals⟩ := exists_link_of_perm hperm hlink
  have hfound := find?_eq_of_perm (htypes.append hexternals) (nodup_of_link hlink)
  refine ⟨⟨dump.name, dump.source, types', externals'⟩,
    ofEntries_eq_ok.2 ⟨.inl ?_, ?_, hsource, ?_⟩, rfl, rfl, htypes, hexternals, hfound⟩
  · rw [hvalues']
    exact Option.some_ne_none _
  · rw [hin']
    exact hlink'
  · rw [← hname]
    exact hdumpName

/-- The order of the entries neither decides whether a dump is accepted nor what it holds. -/
theorem ofEntries_perm (hvalues : (Value.field es "types").items? = some values)
    (hvalues' : (Value.field es' "types").items? = some values') (hperm : values.Perm values')
    (hname : Value.field es "assembly" = Value.field es' "assembly") :
    ((∃ dump, ofEntries defaultName source es = .ok dump) ↔
        ∃ dump', ofEntries defaultName source es' = .ok dump') ∧
      ∀ dump dump', ofEntries defaultName source es = .ok dump →
        ofEntries defaultName source es' = .ok dump' → dump.Reordered dump' := by
  refine ⟨⟨?_, ?_⟩, ?_⟩
  · rintro ⟨dump, h⟩
    obtain ⟨dump', h', -⟩ := exists_reordered hvalues hvalues' hperm hname h
    exact ⟨dump', h'⟩
  · rintro ⟨dump', h'⟩
    obtain ⟨dump, h, -⟩ := exists_reordered hvalues' hvalues hperm.symm hname.symm h'
    exact ⟨dump, h⟩
  · intro dump dump' h h'
    -- The dump that `exists_reordered` gives is the only one.
    obtain ⟨found, hfound, hreordered⟩ := exists_reordered hvalues hvalues' hperm hname h
    rw [hfound] at h'
    cases h'
    exact hreordered

end

/-- The dump of `tillEntries` with its entries the other way round: every reference that led
    forwards leads backwards. -/
def reversedTillEntries : Entries :=
  [(.str "types", .list (entriesIn tillEntries).reverse)]

theorem tillEntries_perm : ∃ dump dump', ofEntries "Shop" none tillEntries = .ok dump ∧
    ofEntries "Shop" none reversedTillEntries = .ok dump' ∧ dump.Reordered dump' := by
  have hlist : (Value.field tillEntries "types").items? = some (entriesIn tillEntries) := rfl
  have hlist' : (Value.field reversedTillEntries "types").items?
      = some (entriesIn tillEntries).reverse := rfl
  have haccepted : (ofEntries "Shop" none tillEntries).isOk = true := by decide +kernel
  cases hdump : ofEntries "Shop" none tillEntries with
  | error e =>
    rw [hdump] at haccepted
    cases haccepted
  | ok dump =>
    obtain ⟨hiff, hreordered⟩ := ofEntries_perm hlist hlist' (List.reverse_perm _).symm rfl
    obtain ⟨dump', hdump'⟩ := hiff.1 ⟨dump, hdump⟩
    exact ⟨dump, dump', rfl, hdump', hreordered dump dump' hdump hdump'⟩

end EmmyStubs.Dump
