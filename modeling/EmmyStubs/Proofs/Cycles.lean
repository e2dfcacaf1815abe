import EmmyStubs.Proofs.Chains
import EmmyStubs.Proofs.Naming

/-! # Dumps whose links form cycles

    Reading a dump ends with a look at the walks from its types, to the types around them and to
    their bases.

    * **`resolved`**: what entries are linked to before that look, when nothing else is wrong.
    * **`CycleReport`**: what is reported where walks circle, be it far behind the type: the first
      type in the order of the entries, and which of its walks it is.
    * **`ofEntries_cycles`**: what passes all other checks is refused exactly where the walk of
      some described type circles.  In an accepted dump the walks from external types run out as
      well, though nothing looks at them: to the types around them, identities get shorter until
      they come to a described type (`acc_declaring_external`), and they have no base.
-/

namespace EmmyStubs

/-- One of the two walks from a type circles. -/
def Graph.Endless (g : Graph) (id : Identity) : Prop :=
  g.Circles (·.declaring) id ∨ g.Circles (·.base) id

namespace Dump

/-! ## §1. Everything but the look at cycles -/

/-- What is made of a result in the end changes nothing about why there is none. -/
theorem except_bind_pure_error {ε α β : Type} {x : Except ε α} {f : α → β} {e : ε} :
    (x >>= fun a => Pure.pure (f a)) = .error e ↔ x = .error e := by
  rw [except_bind_error]
  refine or_iff_left ?_
  rintro ⟨a, -, h⟩
  cases h

/-- What entries are linked to, whether or not their links form cycles. -/
def resolved (entries : List Value) : Except Error (List Descriptor × List Descriptor) := do
  let ds ← outlines [] entries
  let types ← ds.mapM fun (es, d) => complete (ds.map (·.2.identity)) es d
  let externals ← externalsOf types
  return (types, externals)

theorem link_eq_resolved {values : List Value} :
    link values = resolved values >>= fun found =>
      checkCycles ⟨found.1 ++ found.2⟩ found.1 >>= fun _ => Pure.pure found := by
  unfold link resolved
  simp only [bind_assoc, pure_bind]

/-- The map of a dump that passes all checks but the one for cycles, and what its entries are
    linked to. -/
structure Linkable (es : Entries) (types externals : List Descriptor) : Prop where
  listed : (Value.field es "types").items? ≠ none ∨ (Value.field es "types").truthy = false
  linked : resolved (entriesIn es) = .ok (types, externals)

theorem link_of_resolved {values : List Value} {types externals : List Descriptor}
    (h : resolved values = .ok (types, externals)) :
    link values = checkCycles ⟨types ++ externals⟩ types >>= fun _ =>
      Pure.pure (types, externals) := by
  rw [link_eq_resolved, h]
  rfl

theorem resolved_of_link {values : List Value} {types externals : List Descriptor}
    (h : link values = .ok (types, externals)) :
    resolved values = .ok (types, externals) ∧
      checkCycles ⟨types ++ externals⟩ types = .ok () := by
  rw [link_eq_resolved] at h
  obtain ⟨found, hfound, h⟩ := except_bind_ok.1 h
  obtain ⟨_, hcycles, h⟩ := except_bind_ok.1 h
  cases h
  exact ⟨hfound, hcycles⟩

/-- A map whose types are a list is refused for what linking its entries is refused for. -/
theorem ofEntries_eq_error {defaultName : String} {source : Option String} {es : Entries}
    (hlisted : (Value.field es "types").items? ≠ none ∨ (Value.field es "types").truthy = false)
    {e : Error} :
    ofEntries defaultName source es = .error e ↔ link (entriesIn es) = .error e := by
  have hof : ofEntries defaultName source es = link (entriesIn es) >>= fun found =>
      Pure.pure ⟨if (Value.field es "assembly").truthy then (Value.field es "assembly").text
        else defaultName, source, found.1, found.2⟩ := by
    unfold ofEntries entriesIn
    dsimp only
    cases hitems : (Value.field es "types").items? with
    | some items => rfl
    | none =>
      rw [hitems] at hlisted
      rw [hlisted.resolve_left fun hne => hne rfl]
      rfl
  rw [hof]
  exact except_bind_pure_error

/-! ## §2. The first type that is refused -/

theorem cycle?_eq_none {g : Graph} {d : Descriptor} (hd : g.Has d) :
    cycle? g d = none ↔ ¬g.Endless d.identity := by
  rw [Graph.Endless, ← Graph.revisits_iff hd, ← Graph.revisits_iff hd, cycle?]
  cases g.revisits (·.declaring) [d.identity] d.declaring with
  | true => simp
  | false => simp

/-- A walk to the types around a type is told of before the one to its bases. -/
theorem flaw_of_cycle? {g : Graph} {d : Descriptor} (hd : g.Has d) {flaw : Flaw}
    (h : cycle? g d = some flaw) :
    (g.Circles (·.declaring) d.identity → flaw = .cyclicDeclaring) ∧
      (¬g.Circles (·.declaring) d.identity → flaw = .cyclicBase) := by
  unfold cycle? at h
  rw [← Graph.revisits_iff hd]
  split at h
  · next hdeclaring =>
    cases h
    exact ⟨fun _ => rfl, fun hnot => absurd hdeclaring hnot⟩
  · next hdeclaring =>
    split at h
    · cases h
      exact ⟨fun hcircles => absurd hcircles hdeclaring, fun _ => rfl⟩
    · cases h

/-- Types are looked at in their order, up to the first with a flaw. -/
theorem exists_of_checkCycles_eq_error {g : Graph} {ds : List Descriptor} {e : Error}
    (h : checkCycles g ds = .error e) : ∃ before d after flaw, ds = before ++ d :: after ∧
      (∀ b ∈ before, cycle? g b = none) ∧ cycle? g d = some flaw ∧
      e = ⟨some d.identity, flaw⟩ := by
  induction ds with
  | nil => cases h
  | cons d ds ih =>
    unfold checkCycles at h
    cases hcycle : cycle? g d with
    | some flaw =>
      rw [hcycle] at h
      cases h
      exact ⟨[], d, ds, flaw, rfl, by simp, hcycle, rfl⟩
    | none =>
      rw [hcycle] at h
      obtain ⟨before, d', after, flaw, rfl, hbefore, hd'⟩ := ih h
      refine ⟨d :: before, d', after, flaw, rfl, fun b hb => ?_, hd'⟩
      rcases List.mem_cons.1 hb with rfl | hb
      · exact hcycle
      · exact hbefore b hb

/-- What is reported where the walk of a described type circles: the first such type, and the walk
    to the types around it if that one circles, else the walk to its bases. -/
def CycleReport (g : Graph) (types : List Descriptor) (e : Error) : Prop :=
  ∃ before d after, types = before ++ d :: after ∧
    (∀ b ∈ before, ¬g.Endless b.identity) ∧ g.Endless d.identity ∧
    e.owner = some d.identity ∧
    (g.Circles (·.declaring) d.identity → e.reason = "cyclic declaring type") ∧
    (¬g.Circles (·.declaring) d.identity → e.reason = "cyclic base type")

theorem cycleReport_of_checkCycles {g : Graph} {types : List Descriptor}
    (htypes : ∀ d ∈ types, g.Has d) {e : Error} (h : checkCycles g types = .error e) :
    CycleReport g types e := by
  obtain ⟨before, d, after, flaw, rfl, hbefore, hflaw, rfl⟩ := exists_of_checkCycles_eq_error h
  have hd : g.Has d := htypes d (by simp)
  obtain ⟨hdeclaring, hbase⟩ := flaw_of_cycle? hd hflaw
  refine ⟨before, d, after, rfl, fun b hb => ?_, ?_, rfl, fun hcircles => ?_, fun hnot => ?_⟩
  · exact (cycle?_eq_none (htypes b (by simp [hb]))).1 (hbefore b hb)
  · by_contra hends
    rw [(cycle?_eq_none hd).2 hends] at hflaw
    cases hflaw
  · rw [hdeclaring hcircles]
    rfl
  · rw [hbase hnot]
    rfl

theorem checkCycles_refuses {g : Graph} {types : List Descriptor}
    (htypes : ∀ d ∈ types, g.Has d) :
    (∃ e, checkCycles g types = .error e) ↔ ∃ d ∈ types, g.Endless d.identity := by
  constructor
  · rintro ⟨e, h⟩
    obtain ⟨before, d, after, rfl, -, hd, -⟩ := cycleReport_of_checkCycles htypes h
    exact ⟨d, by simp, hd⟩
  · rintro ⟨d, hd, hendless⟩
    cases hcheck : checkCycles g types with
    | error e => exact ⟨e, rfl⟩
    | ok _ =>
      have hnone := checkCycles_eq_ok.1 hcheck d hd
      exact absurd hendless ((cycle?_eq_none (htypes d hd)).1 hnone)

/-! ## §3. Accepted dumps -/

/-- The types are the entries in their order, each with an identity of its own. -/
theorem resolved_ok {values : List Value} {types externals : List Descriptor}
    (h : resolved values = .ok (types, externals)) :
    List.Forall₂ (EntryOf (types.map (·.identity))) values types ∧
      (types.map (·.identity)).Nodup := by
  unfold resolved at h
  obtain ⟨outlined, houtlined, h⟩ := except_bind_ok.1 h
  obtain ⟨types', htypes, h⟩ := except_bind_ok.1 h
  obtain ⟨externals', -, h⟩ := except_bind_ok.1 h
  cases h
  have hids := identities_of_complete (mapM_ok htypes)
  have hentries := entryOf_of_outlined (outlines_eq_ok.1 houtlined).1 (mapM_ok htypes)
  rw [hids]
  exact ⟨hentries, (outlines_ok houtlined).1⟩

/-- A walk that ends from every described type ends from every external one too: it comes to
    shorter identities until it comes to a described type. -/
theorem acc_of_external {next : Descriptor → Option Identity}
    (hlinks : ∀ d u, next d = some u → u ∈ d.links) {types externals : List Descriptor}
    (hself : SelfContained (types.map (·.identity)) externals)
    (htypes : ∀ d ∈ types,
      Acc (Function.swap (Graph.Follows ⟨types ++ externals⟩ next)) d.identity)
    {d : Descriptor} (hd : d ∈ externals) :
    Acc (Function.swap (Graph.Follows ⟨types ++ externals⟩ next)) d.identity := by
  induction hlength : d.identity.toList.length using Nat.strongRecOn generalizing d with
  | ind n ih =>
    refine ⟨_, fun u hu => ?_⟩
    obtain ⟨e, he, hu'⟩ := hu
    have heq := Graph.identity_of_find? he
    rcases List.mem_append.1 (Graph.mem_of_find? he) with hmem | hmem
    · exact (heq ▸ htypes e hmem).inv ⟨e, he, hu'⟩
    · rw [hself.external e hmem] at hu'
      have hpart := mem_links_external_iff.1 (hlinks _ u hu')
      rcases hself.links e hmem u (hself.external e hmem ▸ hlinks _ u hu') with hu | hu
      · obtain ⟨d', hd', rfl⟩ := List.mem_map.1 hu
        exact htypes d' hd'
      · have hlt := length_partsOf_lt hpart
        rw [heq, hlength] at hlt
        have := ih _ hlt hu (by rw [identity_external])
        rwa [identity_external] at this

/-- In an accepted dump a walk that circles from no described type runs out from every type. -/
theorem runsOut_of_link {dump : Dump} {values : List Value}
    (h : link values = .ok (dump.types, dump.externals)) {next : Descriptor → Option Identity}
    (hlinks : ∀ d u, next d = some u → u ∈ d.links)
    (hcircles : ∀ d ∈ dump.types, ¬dump.graph.Circles next d.identity) {id : Identity}
    (hid : dump.graph.Knows id) : dump.graph.RunsOut next id := by
  have hwhole := whole_of_link h
  have htypes : ∀ d ∈ dump.types,
      Acc (Function.swap (dump.graph.Follows next)) d.identity := fun d hd =>
    Graph.acc_of_not_circles (hwhole.has d hd) (hcircles d hd)
  refine Graph.runsOut_of_acc (fun t u => hwhole.closed.knows_of_follows hlinks) ?_ hid
  obtain ⟨d, hd⟩ := Option.isSome_iff_exists.1 hid
  rw [← Graph.identity_of_find? hd]
  rcases List.mem_append.1 (Graph.mem_of_find? hd) with hmem | hmem
  · exact htypes d hmem
  · exact acc_of_external hlinks (link_ok h).2.2 htypes hmem

/-- Among dumps that pass all other checks those are refused whose described types circle, with a
    report of the first one; and in a dump that is accepted the walks from all types run out. -/
theorem ofEntries_cycles (defaultName : String) (source : Option String) (es : Entries) :
    (∀ types externals, Linkable es types externals →
      List.Forall₂ (EntryOf (types.map (·.identity))) (entriesIn es) types ∧
      ((∃ e, ofEntries defaultName source es = .error e) ↔
        ∃ d ∈ types, Graph.Endless ⟨types ++ externals⟩ d.identity) ∧
      ∀ e, ofEntries defaultName source es = .error e →
        CycleReport ⟨types ++ externals⟩ types e) ∧
    ∀ dump, ofEntries defaultName source es = .ok dump →
      Linkable es dump.types dump.externals ∧
      ∀ id, dump.graph.Knows id ∨ dump.graph.Linked id →
        dump.graph.RunsOut (·.declaring) id ∧ dump.graph.RunsOut (·.base) id := by
  refine ⟨fun types externals h => ?_, fun dump h => ?_⟩
  · obtain ⟨hentries, hnodup⟩ := resolved_ok h.linked
    have hhas : ∀ d ∈ types, Graph.Has ⟨types ++ externals⟩ d := fun d hd => has_of_nodup hd hnodup
    have herror : ∀ e, ofEntries defaultName source es = .error e ↔
        checkCycles ⟨types ++ externals⟩ types = .error e := by
      intro e
      rw [ofEntries_eq_error h.listed, link_of_resolved h.linked]
      exact except_bind_pure_error
    refine ⟨hentries, ?_, fun e he => cycleReport_of_checkCycles hhas ((herror e).1 he)⟩
    simp only [herror]
    exact checkCycles_refuses hhas
  · obtain ⟨hlisted, hlink, -⟩ := ofEntries_eq_ok.1 h
    obtain ⟨hresolved, hcycles⟩ := resolved_of_link hlink
    have hwhole := whole_of_link hlink
    have hends : ∀ d ∈ dump.types, ¬dump.graph.Endless d.identity := fun d hd =>
      (cycle?_eq_none (hwhole.has d hd)).1 (checkCycles_eq_ok.1 hcycles d hd)
    refine ⟨⟨hlisted, hresolved⟩, fun id hid => ?_⟩
    have hknows : dump.graph.Knows id := hid.elim (fun h => h) (hwhole.closed id)
    constructor
    · refine runsOut_of_link hlink (fun d u hu => ?_) (fun d hd hcircles => ?_) hknows
      · simp [Descriptor.links, hu]
      · exact hends d hd (.inl hcircles)
    · refine runsOut_of_link hlink (fun d u hu => ?_) (fun d hd hcircles => ?_) hknows
      · simp [Descriptor.links, hu]
      · exact hends d hd (.inr hcircles)

/-- A dump whose second type is inside an external one that is inside it.  The first type is on no
    cycle itself, and the third extends itself. -/
def lidEntries : Entries :=
  [(.str "types", .list [
    .map [(.str "id", .str "Shop.Lid"), (.str "declaring_type", .str "Shop.Crate")],
    .map [(.str "id", .str "Shop.Crate"), (.str "declaring_type", .str "Shop.Crate+Box")],
    .map [(.str "id", .str "Shop.Till"), (.str "base_type", .str "Shop.Till")]])]

/-- The dump is refused for its first type; where the walks from the described types run out, the
    one from the external type does. -/
theorem lidEntries_cycles :
    (∃ types externals e, Linkable lidEntries types externals ∧
      externals.map (·.identity) = ["Shop.Crate+Box"] ∧
      ofEntries "Shop" none lidEntries = .error e ∧ e.owner = some "Shop.Lid" ∧
      e.reason = "cyclic declaring type" ∧ CycleReport ⟨types ++ externals⟩ types e) ∧
    ∃ dump, ofEntries "Shop" none tillEntries = .ok dump ∧
      dump.graph.Knows "Shop.Crate+Box" ∧ dump.graph.RunsOut (·.declaring) "Shop.Crate+Box" ∧
      dump.graph.RunsOut (·.base) "Shop.Crate+Box" := by
  constructor
  · have hresolved : (resolved (entriesIn lidEntries)).toOption.map (fun found =>
        found.2.map (·.identity)) = some ["Shop.Crate+Box"] := by decide +kernel
    have hrefused : (tryCatch ((ofEntries "Shop" none lidEntries).map fun _ => none)
        fun e => pure (some (e.owner, e.reason))).toOption
        = some (some (some "Shop.Lid", "cyclic declaring type")) := by decide +kernel
    obtain ⟨found, hfound, hexternals⟩ := Option.map_eq_some_iff.1 hresolved
    rw [toOption_eq_some_iff] at hfound
    cases hgiven : ofEntries "Shop" none lidEntries with
    | ok dump => rw [hgiven] at hrefused; cases hrefused
    | error e =>
      rw [hgiven] at hrefused
      obtain ⟨howner, hreason⟩ := Prod.mk.inj (Option.some.inj (Option.some.inj hrefused))
      have hlinkable : Linkable lidEntries found.1 found.2 :=
        ⟨.inl (Option.ne_none_iff_isSome.2 (by decide)), hfound⟩
      exact ⟨found.1, found.2, e, hlinkable, hexternals, rfl, howner, hreason,
        ((ofEntries_cycles "Shop" none lidEntries).1 _ _ hlinkable).2.2 e hgiven⟩
  · have hknown : (ofEntries "Shop" none tillEntries).toOption.map (fun dump =>
        (dump.graph.find? "Shop.Crate+Box").isSome) = some true := by decide +kernel
    obtain ⟨dump, hdump, hknows⟩ := Option.map_eq_some_iff.1 hknown
    rw [toOption_eq_some_iff] at hdump
    have hends := ((ofEntries_cycles "Shop" none tillEntries).2 dump hdump).2 "Shop.Crate+Box"
      (.inl hknows)
    exact ⟨dump, hdump, hknows, hends.1, hends.2⟩

end Dump

end EmmyStubs
