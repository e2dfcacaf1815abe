import EmmyStubs.Proofs.Composing
import EmmyStubs.Proofs.History

/-! # References that are mapped

    * **`exprOn_identity`**: where a graph has what the parts of a reference describe, the
      recursion without a cache gives the reference its expression.  It comes back to no type, for
      the parts are spelled with fewer characters.
    * **`found_of_linked`**: a loaded dump has what the parts of its references describe.
    * **`mapType_reference`**: so a mapping gives the expression too, whatever was mapped before.
-/

namespace EmmyStubs.Dump

/-! ## §1. The mapper -/

section

variable {g : Graph} {o : Options} {t : Reference}

/-- Where the types being mapped have longer identities, a reference gets its expression. -/
theorem exprOn_identity (hfound : Found g t) (hplain : t.NotInVoid) {stack : List Identity}
    (hstack : ∀ w ∈ stack, t.identity.toList.length < w.toList.length) :
    g.exprOn o stack t.identity = t.expr o := by
  -- The parts of a reference are shorter than it.
  induction hlength : t.identity.toList.length using Nat.strongRecOn generalizing t stack with
  | ind n ih =>
  obtain ⟨d, hd, hdescribes⟩ := hfound t (.refl t)
  have hn : t.identity ∉ stack := fun hmem => Nat.lt_irrefl _ (hstack _ hmem)
  have hanswer : ∀ u ∈ t.parts, g.exprOn o (t.identity :: stack) u.identity = u.expr o := by
    intro u hu
    have hshorter := Reference.length_part_lt hu
    refine ih _ (hlength ▸ hshorter) (hfound.part hu) (hplain.part hu) (fun w hw => ?_) rfl
    rcases List.mem_cons.1 hw with rfl | hw
    · exact hshorter
    · exact Nat.lt_trans hshorter (hstack w hw)
  rw [Graph.exprOn_of_find? hn hd]
  have hid : d.identity = t.identity := Graph.identity_of_find? hd
  cases t with
  | named name =>
    rw [compute_named hfound hplain hdescribes, Reference.expr]
  | array e r =>
    have hprimitive : Lua.primitive? d.identity = none := by
      refine primitive?_eq_none (.inl ?_)
      rw [hid, Reference.toList_identity, Reference.print]
      exact List.mem_append_right e.print List.mem_cons_self
    have hkind : d.kind = .array := by rw [hdescribes]
    have helement : d.element = some e.identity := by rw [hdescribes]
    rw [compute_element (.inl hkind) hprimitive helement, if_pos hkind,
      hanswer e List.mem_cons_self, Reference.expr]
  | byRef e =>
    have hprimitive : Lua.primitive? d.identity = none := by
      refine primitive?_eq_none (.inr ?_)
      rw [hid, Reference.toList_identity, Reference.print]
      exact List.mem_append_right e.print List.mem_cons_self
    have hkind : d.kind = .byRef := by rw [hdescribes]
    have helement : d.element = some e.identity := by rw [hdescribes]
    rw [compute_element (.inr hkind) hprimitive helement, if_neg (by simp [hkind]),
      hanswer e List.mem_cons_self, Reference.expr]
  | instantiation definition hgeneric arguments =>
    have harguments : ∀ u ∈ arguments.toList,
        g.exprOn o ((Reference.instantiation definition hgeneric arguments).identity :: stack)
          u.identity = u.expr o :=
      fun u hu => hanswer u (List.mem_append_right _ hu)
    rw [compute_instantiation hdescribes harguments, Reference.expr]

/-- Whatever was mapped before, a reference gets its expression. -/
theorem mapType_found (hfound : Found g t) (hplain : t.NotInVoid) (earlier : List Identity) :
    ((mapType g o t.identity).run ((mapAll g o earlier).run Session.start).2).1 = t.expr o := by
  have hvalid := (mapAll_run (g := g) (o := o) earlier).1
  rw [mapType_run hvalid, Graph.expr, exprOn_identity hfound hplain fun w hw => absurd hw (by simp)]

/-! ## §2. Graphs that have what a reference brings in -/

/-- Where nothing is described, everything is reached. -/
theorem Reference.Contains.reaches {described : List Identity} {t u : Reference}
    (h : t.Contains u) (hnew : ∀ u, t.Contains u → u.identity ∉ described) :
    t.Reaches described u := by
  induction h with
  | refl t => exact .refl t
  | @part t u v hu _ ih =>
    exact .part (hnew t (.refl t)) hu (ih fun w hw => hnew w (.part hu hw))

theorem Brought.found {described : List Identity} {ds : List Descriptor}
    (hbrought : Brought described t ds) (hnew : ∀ u, t.Contains u → u.identity ∉ described)
    (hg : ∀ d ∈ ds, g.Has d) : Found g t := by
  intro u hu
  have hmem : external u.identity ∈ ds :=
    (hbrought _).2 ⟨u, hu.reaches hnew, hnew u hu, rfl⟩
  have hhas := hg _ hmem
  rw [Graph.Has, identity_external] at hhas
  exact ⟨_, hhas, describes_external u⟩

/-- An external type refers to what its reference is made of. -/
theorem mem_links_of_part {u : Reference} (hu : u ∈ t.parts) :
    u.identity ∈ (external t.identity).links := by
  obtain ⟨hframe, harguments⟩ := identities_of_parts t
  rw [mem_links_external, ofIdentity_identity, hframe, harguments]
  exact (List.mem_append.1 hu).imp (fun h => List.mem_map_of_mem h) fun h => List.mem_map_of_mem h

/-- External types that refer to described ones and to one another account for all parts of a
    reference that they account for. -/
theorem accounted_of_contains {described : List Identity} {ds : List Descriptor}
    (hds : SelfContained described ds) {u : Reference} (hu : t.Contains u)
    (hnew : ∀ u, t.Contains u → u.identity ∉ described)
    (ht : Accounted described ds t.identity) : Accounted described ds u.identity := by
  induction hu with
  | refl => exact ht
  | @part t u v hu _ ih =>
    have hmem : external t.identity ∈ ds := ht.resolve_left (hnew t (.refl t))
    have hpart := hds.links _ hmem u.identity (mem_links_of_part hu)
    exact ih (fun w hw => hnew w (.part hu hw)) hpart

/-- A loaded dump that has a reference somewhere has what its parts describe, if it describes none
    of them itself. -/
theorem found_of_linked {tree : Files.Tree} {path : Files.Path} {dump : Dump}
    (hload : load tree path = .ok (.ok dump)) (hlinked : ∃ d ∈ dump.types, t.identity ∈ d.links)
    (hnew : ∀ u, t.Contains u → u.identity ∉ dump.types.map (·.identity)) :
    Found dump.graph t := by
  obtain ⟨entries, hlink⟩ := exists_link_of_load hload
  obtain ⟨-, htypes, hexternals⟩ := link_ok hlink
  obtain ⟨d, hd, ht⟩ := hlinked
  intro u hu
  have haccounted := accounted_of_contains hexternals hu hnew (htypes d hd _ ht)
  obtain ⟨e, he, hresolved⟩ := find?_of_accounted hexternals.external haccounted
  have hnone : dump.types.find? (·.identity == u.identity) = none := by
    rw [List.find?_eq_none]
    intro e he heq
    exact hnew u hu (List.mem_map.2 ⟨e, he, by simpa using heq⟩)
  unfold Reference.Resolved at hresolved
  rw [hnone] at hresolved
  exact ⟨e, he, hresolved⟩

end

/-- A reference nothing of which is described is accepted, and maps to its expression whatever the
    options are and whatever was mapped before: in every graph that has what it brings in, and for
    every dump that is loaded with it somewhere. -/
theorem mapType_reference (t : Reference) (hplain : t.NotInVoid) (o : Options)
    (earlier : List Identity) :
    (∀ described owner, (∀ u, t.Contains u → u.identity ∉ described) →
      ∃ ds, expand described owner t.identity = .ok ds ∧
        ∀ g : Graph, (∀ d ∈ ds, g.Has d) →
          ((mapType g o t.identity).run ((mapAll g o earlier).run Session.start).2).1 = t.expr o) ∧
    ∀ tree path dump, load tree path = .ok (.ok dump) →
      (∃ d ∈ dump.types, t.identity ∈ d.links) →
      (∀ u, t.Contains u → u.identity ∉ dump.types.map (·.identity)) →
      ((mapType dump.graph o t.identity).run
        ((mapAll dump.graph o earlier).run Session.start).2).1 = t.expr o := by
  constructor
  · intro described owner hnew
    obtain ⟨ds, hds, hbrought⟩ := expand_identity described t owner
    exact ⟨ds, hds, fun g hg => mapType_found (hbrought.found hnew hg) hplain earlier⟩
  · intro tree path dump hload hlinked hnew
    exact mapType_found (found_of_linked hload hlinked hnew) hplain earlier

/-! ### A reference in a dump -/

/-- A type nested in another one. -/
def boxName : Name :=
  .nested (.top [⟨"Shop".toList, by decide, by decide⟩] ⟨"Crate".toList, by decide, by decide⟩)
    ⟨"Box".toList, by decide, by decide⟩

def nullableName : Name :=
  .top [⟨"System".toList, by decide, by decide⟩] ⟨"Nullable`1".toList, by decide, by decide⟩

/-- An optional array of the type, passed by reference.  The assembly of the array is named. -/
def boxesReference : Reference :=
  .byRef (.instantiation nullableName (by decide)
    (.last (.qualified " Shop".toList (by decide) (by decide))
      (.array (.named boxName) ⟨",".toList, by decide⟩)))

/-- A dump of a class that has a field of this type. -/
def boxesTree : Files.Tree :=
  { cwd := ["work"]
    nodes := [(["work"], .directory),
      (["work", "A.json"], .file
        ("\x7b\"types\":[\x7b\"id\":\"Shop.Till\",\"fields\":[\x7b\"name\":\"open\","
          ++ "\"type\":\"System.Nullable`1[[Shop.Crate+Box[,], Shop]]&\"\x7d]\x7d]\x7d"))] }

def boxesDump? : Option Dump :=
  match load boxesTree ⟨.relative, ["A.json"]⟩ with
  | .ok (.ok dump) => some dump
  | _ => none

theorem load_boxesTree {dump : Dump} (h : boxesDump? = some dump) :
    load boxesTree ⟨.relative, ["A.json"]⟩ = .ok (.ok dump) := by
  unfold boxesDump? at h
  split at h
  · next dump' hload =>
    rw [← Option.some.inj h]
    exact hload
  · cases h

/-- What holds of a reference and of all that its parts contain holds of all that it contains. -/
theorem Reference.forall_contains {P : Reference → Prop} {t : Reference} (ht : P t)
    (hparts : ∀ u ∈ t.parts, ∀ v, u.Contains v → P v) : ∀ v, t.Contains v → P v := by
  intro v hv
  cases hv with
  | refl => exact ht
  | part hu hv => exact hparts _ hu v hv

/-- A reference that is not about the class, and not nested in the type that returns nothing. -/
def Reference.Outside (u : Reference) : Prop :=
  u.identity ≠ "Shop.Till" ∧
    ∀ outer own, u = .named (.nested outer own) → outer.identity ≠ "void"

theorem boxesReference_outside : ∀ u, boxesReference.Contains u → u.Outside := by
  -- From the names up, each reference by the ones that it is made of.
  have hcrate : ∀ u, (Reference.named (.top [⟨"Shop".toList, by decide, by decide⟩]
      ⟨"Crate".toList, by decide, by decide⟩)).Contains u → u.Outside :=
    Reference.forall_contains ⟨by decide, nofun⟩ nofun
  have hbox : ∀ u, (Reference.named boxName).Contains u → u.Outside := by
    refine Reference.forall_contains ⟨by decide, fun outer own h => ?_⟩
      (List.forall_mem_singleton.2 hcrate)
    cases h
    decide
  have hnullable : ∀ u, (Reference.named nullableName).Contains u → u.Outside :=
    Reference.forall_contains ⟨by decide, nofun⟩ nofun
  have harray : ∀ u, (Reference.array (.named boxName) ⟨",".toList, by decide⟩).Contains u →
      u.Outside :=
    Reference.forall_contains ⟨by decide, nofun⟩ (List.forall_mem_singleton.2 hbox)
  refine Reference.forall_contains ⟨by decide, nofun⟩ (List.forall_mem_singleton.2 ?_)
  exact Reference.forall_contains ⟨by decide, nofun⟩
    (List.forall_mem_cons.2 ⟨hnullable, List.forall_mem_singleton.2 harray⟩)

theorem boxesReference_maps :
    boxesReference.identity = "System.Nullable`1[[Shop.Crate+Box[,], Shop]]&" ∧
    boxesReference.NotInVoid ∧ boxesReference.expr {} = ⟨"Shop.Crate.Box[]|nil", true⟩ ∧
    (∃ ds, expand [] "Shop.Till" boxesReference.identity = .ok ds ∧
      (∀ d ∈ ds, (⟨ds⟩ : Graph).Has d) ∧
      ((mapType ⟨ds⟩ {} boxesReference.identity).run Session.start).1
        = ⟨"Shop.Crate.Box[]|nil", true⟩) ∧
    ∃ dump, load boxesTree ⟨.relative, ["A.json"]⟩ = .ok (.ok dump) ∧
      (∃ d ∈ dump.types, boxesReference.identity ∈ d.links) ∧
      (∀ u, boxesReference.Contains u → u.identity ∉ dump.types.map (·.identity)) ∧
      ((mapType dump.graph {} boxesReference.identity).run Session.start).1
        = ⟨"Shop.Crate.Box[]|nil", true⟩ := by
  have hidentity : boxesReference.identity = "System.Nullable`1[[Shop.Crate+Box[,], Shop]]&" := by
    decide
  have hplain : boxesReference.NotInVoid :=
    fun outer own h => (boxesReference_outside _ h).2 outer own rfl
  have hexpr : boxesReference.expr {} = ⟨"Shop.Crate.Box[]|nil", true⟩ := by decide
  obtain ⟨haccepted, hloaded⟩ := mapType_reference boxesReference hplain {} []
  rw [hexpr] at haccepted hloaded
  obtain ⟨ds, hds, hmapped⟩ := haccepted [] "Shop.Till" (by simp)
  have hexternal := (expand_ok hds).2.external
  have hhas : ∀ d ∈ ds, (⟨ds⟩ : Graph).Has d := by
    intro d hd
    have heq := hexternal d hd
    have hfind := find?_external hexternal (heq ▸ hd)
    rwa [← heq] at hfind
  have hfacts : boxesDump?.map (fun dump => dump.types.map fun d => (d.identity, d.links))
      = some [("Shop.Till", ["System.Nullable`1[[Shop.Crate+Box[,], Shop]]&"])] := by
    decide +kernel
  obtain ⟨dump, hdump, hfacts⟩ := Option.map_eq_some_iff.1 hfacts
  have hids : dump.types.map (·.identity) = ["Shop.Till"] := by
    simpa [List.map_map] using congrArg (List.map (·.1)) hfacts
  have hlinked : ∃ d ∈ dump.types, boxesReference.identity ∈ d.links := by
    obtain ⟨d, hd, heq⟩ := List.mem_map.1 (hfacts ▸ List.mem_singleton_self _)
    refine ⟨d, hd, ?_⟩
    rw [(Prod.mk.inj heq).2, hidentity]
    exact List.mem_singleton_self _
  have hnew : ∀ u, boxesReference.Contains u → u.identity ∉ dump.types.map (·.identity) := by
    intro u hu
    rw [hids, List.mem_singleton]
    exact (boxesReference_outside u hu).1
  have hload := load_boxesTree hdump
  exact ⟨hidentity, hplain, hexpr, ⟨ds, hds, hhas, hmapped ⟨ds⟩ hhas⟩,
    dump, hload, hlinked, hnew, hloaded _ _ dump hload hlinked hnew⟩

end EmmyStubs.Dump
