import EmmyStubs.Proofs.Calling
import EmmyStubs.Proofs.Cycles

/-! # Names of nested types

    A nested type is called by the names of the types around it.

    * **`Graph.Nested`**: the types around a type, told from its own link outwards.  In an accepted
      dump every type has them (`Dump.exists_nested`), as walks to the types around a type run out.
    * **`Nested.declaringChain_eq`**: they are those that the name is made from.
    * **`Graph.Nested.qualifiedName_append`**: the name of a type begins with that of a type around
      it, no matter how many types are between them.
    * **`Dump.Composes`**: what a type of an accepted dump is to be called.
    * **`Dump.names_compose`**: it is called so at any moment of any work, exactly when no graph
      that is worked on gives it another name.
-/

namespace EmmyStubs

variable {g : Graph}

/-! ## §1. The types around a type -/

namespace Graph

/-- A type is nested in some types, outermost first. -/
inductive Nested (g : Graph) : List Descriptor → Descriptor → Prop
  | outermost {t : Descriptor} : t.declaring = none → g.Nested [] t
  | inside {outer : List Descriptor} {d t : Descriptor} : g.Has d →
      t.declaring = some d.identity → g.Nested outer d → g.Nested (outer ++ [d]) t

theorem Has.eq_of_identity {d e : Descriptor} (hd : g.Has d) (he : g.Has e)
    (h : d.identity = e.identity) : d = e := by
  unfold Has at hd he
  rw [h, he] at hd
  exact (Option.some.inj hd).symm

/-- A walk that comes to a type without another one around it starts at a nested type. -/
theorem exists_nested_of_arrives {id last : Identity} {e : Descriptor}
    (h : g.Arrives (·.declaring) id last) (he : g.find? last = some e) (hend : e.declaring = none) :
    ∃ t outer, g.find? id = some t ∧ g.Nested outer t := by
  induction h using Relation.ReflTransGen.head_induction_on with
  | refl => exact ⟨e, [], he, .outermost hend⟩
  | head hstep _ ih =>
    obtain ⟨t, ht, hdeclaring⟩ := hstep
    obtain ⟨d, outer, hd, hnested⟩ := ih
    have hid : d.identity = _ := identity_of_find? hd
    rw [← hid] at hdeclaring
    exact ⟨t, outer ++ [d], ht, .inside (has_of_find? hd) hdeclaring hnested⟩

theorem exists_nested {t : Descriptor} (ht : g.Has t)
    (h : g.RunsOut (·.declaring) t.identity) : ∃ outer, g.Nested outer t := by
  obtain ⟨e, he, harrives, hend⟩ := h
  obtain ⟨t', outer, ht', hnested⟩ := exists_nested_of_arrives harrives he hend
  obtain rfl : t = t' := Option.some.inj (ht.symm.trans ht')
  exact ⟨outer, hnested⟩

namespace Nested

variable {outer inner : List Descriptor} {d t : Descriptor}

/-- There is one way to be nested. -/
theorem unique (h : g.Nested outer t) (h' : g.Nested inner t) : outer = inner := by
  induction h generalizing inner with
  | outermost hnone =>
    cases h' with
    | outermost _ => rfl
    | inside _ hsome _ => rw [hnone] at hsome; cases hsome
  | inside hd hsome _ ih =>
    cases h' with
    | outermost hnone => rw [hnone] at hsome; cases hsome
    | inside hd' hsome' hnested' =>
      obtain rfl := hd.eq_of_identity hd' (Option.some.inj (hsome.symm.trans hsome'))
      rw [ih hnested']

/-- A type around a type is nested in what comes before it. -/
theorem around (h : g.Nested (outer ++ d :: inner) t) : g.Has d ∧ g.Nested outer d := by
  generalize hall : outer ++ d :: inner = all at h
  induction h generalizing inner with
  | outermost _ => simp at hall
  | @inside outer' d' t hd' _ hnested ih =>
    induction inner using List.reverseRecOn with
    | nil =>
      obtain ⟨rfl, rfl⟩ : outer = outer' ∧ d = d' := by simpa using List.append_inj' hall rfl
      exact ⟨hd', hnested⟩
    | append_singleton inner e _ =>
      rw [← List.cons_append, ← List.append_assoc] at hall
      exact ih (List.append_inj' hall rfl).1

/-- No type is around itself. -/
theorem identity_ne (hd : g.Has d) (h : g.Nested outer d) :
    ∀ e ∈ outer, e.identity ≠ d.identity := by
  intro e he heq
  obtain ⟨before, after, rfl⟩ := List.append_of_mem he
  obtain ⟨hhas, hbefore⟩ := h.around
  obtain rfl := hhas.eq_of_identity hd heq
  have hlength := congrArg List.length (h.unique hbefore)
  simp at hlength

/-- A walk to the types around a type comes past those that it is nested in, innermost first. -/
theorem chain_eq (h : g.Nested outer t) {seen : List Identity}
    (hseen : ∀ e ∈ outer, e.identity ∉ seen) :
    g.chain (·.declaring) seen t.declaring = outer.reverse := by
  induction h generalizing seen with
  | outermost hnone => rw [hnone, chain_none, List.reverse_nil]
  | @inside outer d t hd hsome hnested ih =>
    have hrest : ∀ e ∈ outer, e.identity ∉ d.identity :: seen := by
      intro e he hmem
      apply (List.mem_cons.1 hmem).elim
      · exact hnested.identity_ne hd e he
      · exact hseen e (List.mem_append_left _ he)
    rw [hsome, chain_of_find? (hseen d (by simp)) hd, ih hrest, List.reverse_concat]

theorem declaringChain_eq (h : g.Nested outer t) : g.declaringChain t = outer := by
  rw [declaringChain, h.chain_eq (by simp), List.reverse_reverse]

/-! ## §2. Names -/

theorem qualifiedName_eq (h : g.Nested outer t) (ht : t.isGeneric = false) :
    g.qualifiedName t =
      ".".intercalate (t.space?.toList ++ outer.map (·.name) ++ [t.name]) := by
  rw [qualifiedName, ht, h.declaringChain_eq]
  rfl

/-- The name of a type begins with that of a type around it. -/
theorem qualifiedName_append (h : g.Nested (outer ++ d :: inner) t) (ht : t.isGeneric = false)
    (hd : d.isGeneric = false) (hspace : d.space? = t.space?) :
    g.qualifiedName t =
      g.qualifiedName d ++ "." ++ ".".intercalate (inner.map (·.name) ++ [t.name]) := by
  have hsplit : t.space?.toList ++ (outer ++ d :: inner).map (·.name) ++ [t.name] =
      (d.space?.toList ++ outer.map (·.name) ++ [d.name]) ++ (inner.map (·.name) ++ [t.name]) := by
    simp [hspace]
  rw [h.qualifiedName_eq ht, h.around.2.qualifiedName_eq hd, hsplit,
    String.intercalate_append_of_ne_nil (by simp) (by simp)]

end Nested

end Graph

/-! ## §3. Accepted dumps -/

namespace Dump

variable {defaultName : String} {source : Option String} {es : Entries} {dump : Dump}

theorem exists_nested (h : ofEntries defaultName source es = .ok dump) {t : Descriptor}
    (ht : dump.graph.Has t) : ∃ outer, dump.graph.Nested outer t := by
  obtain ⟨-, hlink, -⟩ := ofEntries_eq_ok.1 h
  obtain ⟨-, hcycles⟩ := resolved_of_link hlink
  have hlinks : ∀ (d : Descriptor) u, d.declaring = some u → u ∈ d.links := by
    intro d u hu
    simp [Descriptor.links, hu]
  have hends : ∀ d ∈ dump.types, ¬dump.graph.Circles (·.declaring) d.identity := by
    intro d hd hcircles
    have hhas := (whole_of_link hlink).has d hd
    exact (cycle?_eq_none hhas).1 (checkCycles_eq_ok.1 hcycles d hd) (.inl hcircles)
  apply Graph.exists_nested ht
  apply runsOut_of_link hlink hlinks hends
  exact Option.isSome_iff_exists.2 ⟨t, ht⟩

theorem space_external (id : Identity) : (external id).space ≠ some "" := by
  unfold external Form.descriptor
  split
  · simp
  · simp
  · simp
  · exact spaceOf_ne_empty
  · exact spaceOf_ne_empty

/-- A type of an accepted dump has no namespace rather than an empty one. -/
theorem space?_eq (h : ofEntries defaultName source es = .ok dump) {t : Descriptor}
    (ht : dump.graph.Has t) : t.space? = t.space := by
  obtain ⟨-, hlink, -⟩ := ofEntries_eq_ok.1 h
  have hspace : t.space ≠ some "" := by
    apply (List.mem_append.1 (Graph.mem_of_find? ht)).elim
    · intro htype
      exact (described_of_link hlink htype).2.1
    · intro hexternal
      rw [(link_ok hlink).2.2.external t hexternal]
      exact space_external t.identity
  unfold Descriptor.space?
  cases hgiven : t.space with
  | none => rfl
  | some space =>
    rw [hgiven] at hspace
    have hfilled : space ≠ "" := by
      intro hempty
      exact hspace (congrArg some hempty)
    simp [hfilled]

/-- What a type is to be called:
    - a generic type by a token;
    - any other type by its namespace, the types that it is nested in and its own name. -/
structure Composes (dump : Dump) (t : Descriptor) (name : String) : Prop where
  generic : t.isGeneric = true → name = "userdata"
  plain : t.isGeneric = false → ∃ outer, dump.graph.Nested outer t ∧
    name = ".".intercalate (t.space.toList ++ outer.map (·.name) ++ [t.name])

theorem composes_iff (h : ofEntries defaultName source es = .ok dump) {t : Descriptor}
    (ht : dump.graph.Has t) {name : String} :
    dump.Composes t name ↔ name = dump.graph.qualifiedName t := by
  obtain ⟨outer, hnested⟩ := exists_nested h ht
  cases hgeneric : t.isGeneric with
  | true =>
    have htoken : dump.graph.qualifiedName t = "userdata" := by
      rw [Graph.qualifiedName, if_pos hgeneric]
      rfl
    rw [htoken]
    constructor
    · exact fun hname => hname.generic hgeneric
    · exact fun hname => ⟨fun _ => hname, fun hplain => by rw [hgeneric] at hplain; cases hplain⟩
  | false =>
    rw [hnested.qualifiedName_eq hgeneric, space?_eq h ht]
    constructor
    · intro hname
      obtain ⟨outer', hnested', rfl⟩ := hname.plain hgeneric
      rw [hnested.unique hnested']
    · intro hname
      refine ⟨fun hgeneric' => ?_, fun _ => ⟨outer, hnested, hname⟩⟩
      rw [hgeneric] at hgeneric'
      cases hgeneric'

/-- A type inside another one of the same namespace adds its own name to that of the other. -/
theorem qualifiedName_inside (h : ofEntries defaultName source es = .ok dump) {d t : Descriptor}
    (ht : dump.graph.Has t) (hd : dump.graph.Has d) (hplain : t.isGeneric = false)
    (hplain' : d.isGeneric = false) (hdeclaring : t.declaring = some d.identity)
    (hspace : d.space = t.space) :
    dump.graph.qualifiedName t = dump.graph.qualifiedName d ++ "." ++ t.name := by
  obtain ⟨outer, hnested⟩ := exists_nested h hd
  have hspaces : d.space? = t.space? := by rw [space?_eq h hd, space?_eq h ht, hspace]
  rw [(Graph.Nested.inside hd hdeclaring hnested).qualifiedName_append hplain hplain' hspaces]
  rfl

/-! ## §4. Any moment of any work -/

/-- Work on some graphs may leave any of their types called as its own graph calls it. -/
theorem exists_reachable_held {o : Options} {graphs : List Graph} {g : Graph} (hg : g ∈ graphs)
    {d : Descriptor} (hd : g.Has d) : ∃ s : Session, s.Reachable o graphs ∧
      s.names.held? d.identity = some (g.qualifiedName d) := by
  -- Nothing is done until it is the turn of `g`, and then the type is named.
  obtain ⟨before, later, rfl⟩ := List.append_of_mem hg
  have hbefore : Session.start.Reachable o before := Session.Reachable.new.idle before
  have hnamed : (Session.start.after g o [.name d]).Reachable o (before ++ [g]) :=
    hbefore.after (by simpa [Chore.Within] using hd)
  refine ⟨_, by simpa using hnamed.idle later, ?_⟩
  have hnames : (Session.start.after g o [.name d]).names
      = (Cache.empty.miss.store d.identity (g.qualifiedName d)).2 := rfl
  rw [hnames, Cache.held?_store]
  simp

/-- A type of an accepted dump is called as it is to be called at every moment of the work on some
    graphs exactly when none of them that has the type gives it another name.  For a type and one
    inside it whose names are safe so, the inner one adds its own name to that of the outer one,
    whenever each of them is resolved. -/
theorem names_compose (h : ofEntries defaultName source es = .ok dump) (o : Options)
    (graphs : List Graph) {t : Descriptor} (ht : dump.graph.Has t) :
    ((∀ s : Session, s.Reachable o graphs → dump.Composes t ((resolve dump.graph t).run s).1) ↔
      ∀ g ∈ graphs, g.NamesAlike dump.graph [t]) ∧
    ∀ d, dump.graph.Has d → t.isGeneric = false → d.isGeneric = false →
      t.declaring = some d.identity → d.space = t.space →
      (∀ g ∈ graphs, g.NamesAlike dump.graph [d, t]) →
      ∀ s s' : Session, s.Reachable o graphs → s'.Reachable o graphs →
        ((resolve dump.graph t).run s).1 = ((resolve dump.graph d).run s').1 ++ "." ++ t.name := by
  have hresolved : ∀ (own : List Descriptor) d s, d ∈ own → (∀ e ∈ own, dump.graph.Has e) →
      (∀ g ∈ graphs, g.NamesAlike dump.graph own) → Session.Reachable o graphs s →
      ((resolve dump.graph d).run s).1 = dump.graph.qualifiedName d := by
    intro own d s hd hown halike hs
    exact ((resolve_calls hown hd s).run (.of_reachable hs halike)).2
  constructor
  · constructor
    · intro hcomposes g hg d d' hd hd' hid
      obtain rfl := List.mem_singleton.1 hd'
      -- On the session that `g` leaves, the answer is the name that `g` gives.
      obtain ⟨s, hs, hheld⟩ := exists_reachable_held (o := o) hg hd
      have hname := (composes_iff h ht).1 (hcomposes s hs)
      rwa [resolve_of_held (hid ▸ hheld)] at hname
    · intro halike s hs
      apply (composes_iff h ht).2
      exact hresolved [t] t s List.mem_cons_self (by simpa using ht) halike hs
  · intro d hd hplain hplain' hdeclaring hspace halike s s' hs hs'
    have hown : ∀ e ∈ [d, t], dump.graph.Has e := by simp [hd, ht]
    rw [hresolved [d, t] t s (by simp) hown halike hs,
      hresolved [d, t] d s' (by simp) hown halike hs',
      qualifiedName_inside h ht hd hplain hplain' hdeclaring hspace]

/-- A dump with a type two levels deep, and a generic type. -/
def hingeEntries : Entries :=
  [(.str "types", .list [
    .map [(.str "id", .str "Shop.Crate+Lid+Hinge"), (.str "declaring_type", .str "Shop.Crate+Lid")],
    .map [(.str "id", .str "Shop.Crate+Lid"), (.str "declaring_type", .str "Shop.Crate")],
    .map [(.str "id", .str "Shop.Crate")],
    .map [(.str "id", .str "Shop.Pile\x601")]])]

/-- An earlier one that refers to some of these types. -/
def latchEntries : Entries :=
  [(.str "types", .list [
    .map [(.str "id", .str "Shop.Latch"), (.str "base_type", .str "Shop.Crate+Lid+Hinge"),
      (.str "interfaces", .list [.str "Shop.Pile\x601"])]])]

/-- What is left when the types have been mapped for one dump, and one of them for the other. -/
def hingeSession (earlier g : Graph) : Session :=
  (Session.start.after earlier {} [.map "Shop.Crate+Lid+Hinge", .map "Shop.Pile\x601"]).after
    g {} [.map "Shop.Crate+Lid"]

/-- Whether a graph has the innermost type, the one around it and the generic one. -/
def hasHinge (g : Graph) : Bool :=
  match g.find? "Shop.Crate+Lid+Hinge", g.find? "Shop.Crate+Lid", g.find? "Shop.Pile\x601" with
  | some t, some d, some u =>
    t.declaring = some d.identity && t.name = "Hinge" && !t.isGeneric && !d.isGeneric
      && d.space = t.space && u.isGeneric
  | _, _, _ => false

theorem exists_of_hasHinge {g : Graph} (h : hasHinge g = true) :
    ∃ t d u, g.Has t ∧ g.Has d ∧ g.Has u ∧ t.declaring = some d.identity ∧ t.name = "Hinge" ∧
      t.isGeneric = false ∧ d.isGeneric = false ∧ d.space = t.space ∧ u.isGeneric = true := by
  unfold hasHinge at h
  split at h
  · next t d u ht hd hu =>
    simp only [Bool.and_eq_true, decide_eq_true_eq, Bool.not_eq_true'] at h
    obtain ⟨⟨⟨⟨⟨hdeclaring, hname⟩, ht'⟩, hd'⟩, hspace⟩, hu'⟩ := h
    exact ⟨t, d, u, Graph.has_of_find? ht, Graph.has_of_find? hd, Graph.has_of_find? hu,
      hdeclaring, hname, ht', hd', hspace, hu'⟩
  · cases h

theorem hingeEntries_names : ∃ earlier dump t d u,
    ofEntries "Shop" none latchEntries = .ok earlier ∧
    ofEntries "Shop" none hingeEntries = .ok dump ∧
    let s := hingeSession earlier.graph dump.graph
    s.Reachable {} [earlier.graph, dump.graph] ∧
    s.names.held? "Shop.Crate+Lid+Hinge" = some "Shop.Crate.Lid.Hinge" ∧
    dump.graph.Has t ∧ dump.graph.Has d ∧ dump.graph.Has u ∧ t.declaring = some d.identity ∧
    ((resolve dump.graph t).run s).1 = ((resolve dump.graph d).run .start).1 ++ "." ++ "Hinge" ∧
    dump.Composes t ((resolve dump.graph t).run s).1 ∧
    ((resolve dump.graph u).run s).1 = "userdata" := by
  have hfacts : ((ofEntries "Shop" none latchEntries).toOption.bind fun earlier =>
      (ofEntries "Shop" none hingeEntries).toOption.map fun dump =>
        (hasHinge dump.graph,
          (hingeSession earlier.graph dump.graph).names.held? "Shop.Crate+Lid+Hinge",
          earlier.graph.namesAlike? dump.graph dump.graph.descriptors))
      = some (true, some "Shop.Crate.Lid.Hinge", true) := by decide +kernel
  obtain ⟨earlier, hearlier, hfacts⟩ := Option.bind_eq_some_iff.1 hfacts
  obtain ⟨dump, hdump, hfacts⟩ := Option.map_eq_some_iff.1 hfacts
  rw [toOption_eq_some_iff] at hearlier hdump
  simp only [Prod.mk.injEq] at hfacts
  obtain ⟨hread, hheld, hall⟩ := hfacts
  obtain ⟨t, d, u, ht, hd, hu, hdeclaring, hown, hplain, hplain', hspace, hgeneric⟩ :=
    exists_of_hasHinge hread
  have hs : (hingeSession earlier.graph dump.graph).Reachable {} [earlier.graph, dump.graph] :=
    (Session.Reachable.of_chores (by simp [Chore.Within])).after (by simp [Chore.Within])
  have hstart : Session.start.Reachable {} [earlier.graph, dump.graph] :=
    Session.Reachable.new.idle _
  have halike : ∀ own : List Descriptor, (∀ e ∈ own, dump.graph.Has e) →
      ∀ g ∈ [earlier.graph, dump.graph], g.NamesAlike dump.graph own := by
    intro own hown g hg
    rcases List.mem_pair.1 hg with rfl | rfl
    · intro e e' he he'
      exact Graph.namesAlike_of_all hall e e' he (Graph.mem_of_find? (hown e' he'))
    · exact Graph.namesAlike_self hown
  obtain ⟨hcomposes, hinside⟩ := names_compose hdump {} [earlier.graph, dump.graph] ht
  have hname := hinside d hd hplain hplain' hdeclaring hspace
    (halike [d, t] (by simp [hd, ht])) _ .start hs hstart
  rw [hown] at hname
  have htoken := (names_compose hdump {} [earlier.graph, dump.graph] hu).1.2
    (halike [u] (by simpa using hu)) _ hs
  exact ⟨earlier, dump, t, d, u, hearlier, hdump, hs, hheld, ht, hd, hu, hdeclaring, hname,
    hcomposes.2 (halike [t] (by simpa using ht)) _ hs, htoken.generic hgeneric⟩

/-- A dump that refers to a type of another dump, and to one inside a type of that. -/
def heapEntries : Entries :=
  [(.str "types", .list [
    .map [(.str "id", .str "Shop.Heap"), (.str "base_type", .str "Shop.Pile"),
      (.str "interfaces", .list [.str "Shop.Crate+Lid"])]])]

/-- The other one, where the one type is generic, and nothing is around the other one. -/
def pileEntries : Entries :=
  [(.str "types", .list [
    .map [(.str "id", .str "Shop.Pile"), (.str "is_generic", .bool true)],
    .map [(.str "id", .str "Shop.Crate+Lid")]])]

/-- A generic type is called by a name, and a type by that of another one, which it is not in. -/
theorem pileEntries_names : ∃ earlier dump t u,
    ofEntries "Shop" none heapEntries = .ok earlier ∧
    ofEntries "Shop" none pileEntries = .ok dump ∧
    let s := Session.start.after earlier.graph {} [.map "Shop.Pile", .map "Shop.Crate+Lid"]
    s.Reachable {} [earlier.graph] ∧
    dump.graph.Has t ∧ t.isGeneric = true ∧ ((resolve dump.graph t).run s).1 = "Shop.Pile" ∧
    dump.graph.Has u ∧ u.isGeneric = false ∧ dump.graph.Nested [] u ∧
    u.space = some "Shop" ∧ u.name = "Lid" ∧
    ((resolve dump.graph u).run s).1 = "Shop.Crate.Lid" := by
  have hgenerics : ((ofEntries "Shop" none heapEntries).toOption.bind fun earlier =>
      (ofEntries "Shop" none pileEntries).toOption.bind fun dump =>
        let s := Session.start.after earlier.graph {} [.map "Shop.Pile", .map "Shop.Crate+Lid"]
        (dump.graph.find? "Shop.Pile").map fun t =>
          (t.isGeneric, ((resolve dump.graph t).run s).1))
      = some (true, "Shop.Pile") := by decide +kernel
  have hlids : ((ofEntries "Shop" none heapEntries).toOption.bind fun earlier =>
      (ofEntries "Shop" none pileEntries).toOption.bind fun dump =>
        let s := Session.start.after earlier.graph {} [.map "Shop.Pile", .map "Shop.Crate+Lid"]
        (dump.graph.find? "Shop.Crate+Lid").map fun u =>
          (u.isGeneric, u.declaring, u.space, u.name, ((resolve dump.graph u).run s).1))
      = some (false, none, some "Shop", "Lid", "Shop.Crate.Lid") := by decide +kernel
  obtain ⟨earlier, hearlier, hgenerics⟩ := Option.bind_eq_some_iff.1 hgenerics
  obtain ⟨dump, hdump, hgenerics⟩ := Option.bind_eq_some_iff.1 hgenerics
  rw [hearlier, Option.bind_some, hdump, Option.bind_some] at hlids
  rw [toOption_eq_some_iff] at hearlier hdump
  simp only [Option.map_eq_some_iff, Prod.mk.injEq] at hgenerics hlids
  obtain ⟨t, ht, hgeneric, hpile⟩ := hgenerics
  obtain ⟨u, hu, hplain, hnone, hspace, hname, hlid⟩ := hlids
  refine ⟨earlier, dump, t, u, hearlier, hdump, ?_, Graph.has_of_find? ht, hgeneric, hpile,
    Graph.has_of_find? hu, hplain, .outermost hnone, hspace, hname, hlid⟩
  exact .of_chores (by simp [Chore.Within])

end Dump

end EmmyStubs
