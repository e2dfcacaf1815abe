import EmmyStubs.Proofs.Unhiding

/-! # Fields of a class

    * **`Collected`**: one field for every name of the visible members, made from the first of
      them, and one message for every other one that no property hides.
    * **`fields_collected`**: this is how fields are collected.  That a property hides others
      shows in these messages and nowhere else.
    * **`field_of_name`**: the field of a name is made from a property, if some type of the
      hierarchy has one, and so it may pass over a field of a more derived type.
-/

namespace EmmyStubs.Members

variable {g : Graph} {o : Options} {d : Descriptor} {s : Session} {ancestors : Bool}

/-! ## §1. Names -/

/-- A name that is put between brackets holds what a plain one does not. -/
theorem keyName_ne {a b : String} (ha : a.toList.any (fun c => c == '<' || c == '.' || c == '>'))
    (hb : ¬b.toList.any fun c => c == '<' || c == '.' || c == '>') :
    "[\"" ++ a ++ "\"]" ≠ b := by
  rintro rfl
  simp [String.toList_append, ha] at hb

/-- Different names are different table keys. -/
theorem keyName_injective : Function.Injective keyName := by
  intro a b h
  unfold keyName at h
  split at h <;> split at h
  · simpa using h
  · next ha hb => exact absurd h (keyName_ne ha hb)
  · next ha hb => exact absurd h.symm (keyName_ne hb ha)
  · exact h

/-! ## §2. Marks -/

/-- The member without the mark that it hides others. -/
def Visible.unhidden (v : Visible) : Visible :=
  { v with hides := false }

theorem visibleProperties_unhidden (d : Descriptor) :
    visibleProperties d.unhidden = (visibleProperties d).map (·.unhidden) := by
  unfold visibleProperties Descriptor.unhidden
  rw [List.filter_map, List.map_map, List.map_map]
  rfl

theorem visibleFields_unhidden (d : Descriptor) :
    visibleFields d.unhidden = (visibleFields d).map (·.unhidden) := by
  unfold visibleFields
  rw [List.map_map]
  rfl

theorem candidates_unhidden :
    candidates g.unhidden d.unhidden ancestors = (candidates g d ancestors).map (·.unhidden) := by
  unfold candidates
  split
  · exact Graph.hierarchy_unhidden
  · rfl

theorem visibleMembers_unhidden :
    visibleMembers (candidates g.unhidden d.unhidden ancestors)
      = (visibleMembers (candidates g d ancestors)).map (·.unhidden) := by
  unfold visibleMembers
  rw [candidates_unhidden, List.flatMap_map, List.flatMap_map, List.map_append, List.map_flatMap,
    List.map_flatMap]
  simp only [visibleProperties_unhidden, visibleFields_unhidden]

theorem isProperty_of_mem {v : Visible} (h : v ∈ visibleProperties d) : v.isProperty = true := by
  obtain ⟨p, -, rfl⟩ := List.mem_map.1 h
  rfl

theorem plain_of_mem {v : Visible} (h : v ∈ visibleFields d) :
    v.isProperty = false ∧ v.hides = false := by
  obtain ⟨f, -, rfl⟩ := List.mem_map.1 h
  exact ⟨rfl, rfl⟩

/-- Only properties hide others. -/
theorem isProperty_of_hides {ds : List Descriptor} :
    ∀ v ∈ visibleMembers ds, v.hides → v.isProperty := by
  intro v hv hh
  rcases List.mem_append.1 hv with hv | hv
  · obtain ⟨e, -, hv⟩ := List.mem_flatMap.1 hv
    exact isProperty_of_mem hv
  · obtain ⟨e, -, hv⟩ := List.mem_flatMap.1 hv
    rw [(plain_of_mem hv).2] at hh
    cases hh

/-- The members that get a field. -/
def keptMembers (g : Graph) (d : Descriptor) (ancestors : Bool) : List Visible :=
  firsts (·.name) (visibleMembers (candidates g d ancestors))

/-- The fields of these members. -/
def keptFields (g : Graph) (o : Options) (d : Descriptor) (ancestors : Bool) :
    Action (List Stub.Field) :=
  (keptMembers g d ancestors).mapM (fieldOf g o)

theorem keptFields_unhidden :
    keptFields g.unhidden o d.unhidden ancestors = keptFields g o d ancestors := by
  have hfield : ∀ v : Visible, fieldOf g.unhidden o v.unhidden = fieldOf g o v := by
    intro v
    unfold fieldOf
    rw [typeText_unhidden]
    rfl
  have hkept : keptMembers g.unhidden d.unhidden ancestors
      = (keptMembers g d ancestors).map (·.unhidden) := by
    unfold keptMembers
    rw [visibleMembers_unhidden, firsts_map]
    rfl
  unfold keptFields
  rw [hkept, List.mapM_map]
  simp only [Function.comp_def, hfield]

/-! ## §3. Collecting -/

/-- How the fields of a class come from its visible members: one for every name, in the order in
    which the names first occur.  `out` is what a session `s` has become with them. -/
structure Collected (g : Graph) (o : Options) (s : Session) (vs : List Visible)
    (out : List Stub.Field × Session) : Prop where
  fields : List.Forall₂ (Fielded g o s) (firsts (·.name) vs) out.1
  names : out.1.map (·.name) = (vs.map (·.name)).eraseDups.map keyName
  distinct : (out.1.map (·.name)).Nodup
  log : out.2.log.filter ofCollect
    = s.log.filter ofCollect ++ (reported [] vs).map fun v => duplicateEntry v.name

theorem fields_eq_write : ∃ lines, fields g o d ancestors = write g o lines ∧
    keptOf lines = keptMembers g d ancestors ∧
    repeatedOf lines = (reported [] (visibleMembers (candidates g d ancestors))).map (·.name) := by
  refine ⟨_, fieldsOf_eq_write [] [] _, ?_, repeated_linesOf .nil isProperty_of_hides⟩
  rw [kept_linesOf .nil isProperty_of_hides]
  simp [keptMembers]

theorem map_name_of_fielded {vs : List Visible} {fs : List Stub.Field}
    (h : List.Forall₂ (Fielded g o s) vs fs) :
    fs.map (·.name) = (vs.map (·.name)).map keyName := by
  induction h with
  | nil => rfl
  | cons hf _ ih => rw [List.map_cons, List.map_cons, List.map_cons, hf.name, ih]

theorem fields_returns (g : Graph) (o : Options) (d : Descriptor) (ancestors : Bool)
    (s : Session) : List.Forall₂ (Fielded g o s) (keptMembers g d ancestors)
      ((fields g o d ancestors).run s).1 := by
  obtain ⟨lines, hfields, hkept, -⟩ := fields_eq_write (g := g) (o := o) (d := d)
  rw [hfields, ← hkept]
  exact write_returns .refl

/-- But for the messages of collecting, only the kept members count. -/
theorem fields_same (g : Graph) (o : Options) (d : Descriptor) (ancestors : Bool) (s : Session) :
    ((fields g o d ancestors).run s).1 = ((keptFields g o d ancestors).run s).1 ∧
      ((keptFields g o d ancestors).run s).2.Same (fun e => !ofCollect e)
        ((fields g o d ancestors).run s).2 := by
  obtain ⟨lines, hfields, hkept, -⟩ := fields_eq_write (g := g) (o := o) (d := d)
  rw [hfields, keptFields, ← hkept]
  exact write_same .refl

/-- Fields are collected completely and without duplicates, on any session.  Marking other
    properties as hiding those of their base types changes the messages of collecting and nothing
    else. -/
theorem fields_collected (g : Graph) (o : Options) (d : Descriptor) (ancestors : Bool)
    (s : Session) :
    Collected g o s (visibleMembers (candidates g d ancestors))
        ((fields g o d ancestors).run s) ∧
      ∀ g' d', g'.unhidden = g.unhidden → d'.unhidden = d.unhidden →
        ((fields g' o d' ancestors).run s).1 = ((fields g o d ancestors).run s).1 ∧
        ((fields g o d ancestors).run s).2.Same (fun e => !ofCollect e)
          ((fields g' o d' ancestors).run s).2 := by
  constructor
  · have hreturns := fields_returns g o d ancestors s
    have hnames : ((fields g o d ancestors).run s).1.map (·.name)
        = ((visibleMembers (candidates g d ancestors)).map (·.name)).eraseDups.map keyName := by
      rw [map_name_of_fielded hreturns, keptMembers, map_firsts]
    refine ⟨hreturns, hnames, ?_, ?_⟩
    · rw [hnames]
      exact (nodup_eraseDups _).map keyName_injective
    · obtain ⟨lines, hfields, -, hrepeated⟩ := fields_eq_write (g := g) (o := o) (d := d)
      rw [hfields, log_write, hrepeated, List.map_map]
      rfl
  · intro g' d' hg hd
    obtain ⟨hresult, hsame⟩ := fields_same g o d ancestors s
    obtain ⟨hresult', hsame'⟩ := fields_same g' o d' ancestors s
    -- Without the marks, the same members are kept and translated.
    have hkept : keptFields g' o d' ancestors = keptFields g o d ancestors := by
      rw [← keptFields_unhidden, hg, hd, keptFields_unhidden]
    rw [hkept] at hresult' hsame'
    exact ⟨hresult'.trans hresult.symm, hsame.symm.trans hsame'⟩

/-! ### A coat is a garment -/

/-- A coat has a size of its own, which hides that of the garment, and as plain fields a label,
    which the garment has too, and a lining, which the garment has as a property. -/
def coat : Descriptor :=
  { identity := "C.Coat", name := "Coat", space := some "C", base := some "C.Garment",
    fields := [{ name := "lining", type := "System.Int32" },
      { name := "label", type := "System.Int32" }],
    properties := [{ name := "Size", type := "System.Int32", hidesBase := true }] }

def garment : Descriptor :=
  { identity := "C.Garment", name := "Garment", space := some "C",
    fields := [{ name := "label", type := "System.String" },
      { name := "<Size>k__BackingField", type := "System.String", isCompilerGenerated := true }],
    properties := [{ name := "Size", type := "System.String" },
      { name := "lining", type := "System.String" }] }

def coatGraph : Graph :=
  ⟨[coat, garment,
    { identity := "System.Int32", name := "Int32", space := some "System", isExternal := true },
    { identity := "System.String", name := "String", space := some "System", isExternal := true }]⟩

/-- Without the mark the size of the garment is reported, and the fields are the same. -/
theorem coatFields_collected :
    ((fields coatGraph.unhidden {} coat.unhidden true).run .start).1
        = ((fields coatGraph {} coat true).run .start).1 ∧
      ((fields coatGraph {} coat true).run .start).1.map (·.name) = ["Size", "lining", "label"] ∧
      (reported [] (visibleMembers (candidates coatGraph coat true))).map (·.name)
        = ["lining", "label"] ∧
      (reported [] (visibleMembers (candidates coatGraph.unhidden coat.unhidden true))).map (·.name)
        = ["Size", "lining", "label"] := by
  obtain ⟨-, hmarks⟩ := fields_collected coatGraph {} coat true .start
  refine ⟨(hmarks coatGraph.unhidden coat.unhidden rfl rfl).1, ?_⟩
  decide +kernel

/-! ## §4. The field of a name -/

/-- A type has a visible member of the name. -/
def declares (n : String) (e : Descriptor) : Bool :=
  (visibleProperties e ++ visibleFields e).any (·.name == n)

/-- The property of the name in the most derived type that has one, or else the plain field of
    the name in the most derived type that has one. -/
def foremost? (ds : List Descriptor) (n : String) : Option Visible :=
  (ds.findSome? fun e => (visibleProperties e).find? (·.name == n)).or
    (ds.findSome? fun e => (visibleFields e).find? (·.name == n))

theorem find?_visibleMembers (ds : List Descriptor) (n : String) :
    (visibleMembers ds).find? (·.name == n) = foremost? ds n := by
  unfold visibleMembers foremost?
  rw [List.find?_append, List.find?_flatMap, List.find?_flatMap]

/-- The fields of a name belong to the members of that name. -/
theorem filter_fielded {vs : List Visible} {fs : List Stub.Field} (n : String)
    (h : List.Forall₂ (Fielded g o s) vs fs) :
    List.Forall₂ (Fielded g o s) (vs.filter (·.name == n)) (fs.filter (·.name == keyName n)) := by
  induction h with
  | nil => exact .nil
  | @cons v f vs fs hf _ ih =>
    have hkey : (f.name == keyName n) = (v.name == n) := by
      rw [hf.name, Bool.eq_iff_iff, beq_iff_eq, beq_iff_eq, keyName_injective.eq_iff]
    rw [List.filter_cons, List.filter_cons, hkey]
    split
    · exact .cons hf ih
    · exact ih

/-- What the first type with a property has, the first type with a weaker property may have. -/
theorem findSome?_of_find? {α β : Type} {p : α → Bool} {f : α → Option β} {l : List α} {a : α}
    {b : β} (ha : l.find? p = some a) (hf : ∀ c, p c = false → f c = none) (hb : f a = some b) :
    l.findSome? f = some b := by
  obtain ⟨-, before, after, rfl, hbefore⟩ := List.find?_eq_some_iff_append.1 ha
  have hnone : before.findSome? f = none :=
    List.findSome?_eq_none_iff.2 fun c hc => hf c (by simpa using hbefore c hc)
  rw [List.findSome?_append, hnone, Option.none_or, List.findSome?_cons, hb]

theorem exists_find?_name {vs : List Visible} {w : Visible} {n : String} (hw : w ∈ vs)
    (hn : w.name = n) : ∃ v, vs.find? (·.name == n) = some v := by
  rw [← Option.isSome_iff_exists, List.find?_isSome]
  exact ⟨w, hw, by simpa using hn⟩

theorem find?_of_not_declares {n : String} {e : Descriptor} (h : declares n e = false) :
    (visibleProperties e).find? (·.name == n) = none ∧
      (visibleFields e).find? (·.name == n) = none := by
  have hnone := List.any_eq_false.1 h
  exact ⟨List.find?_eq_none.2 fun v hv => hnone v (List.mem_append_left _ hv),
    List.find?_eq_none.2 fun v hv => hnone v (List.mem_append_right _ hv)⟩

/-- Some type has every visible member. -/
theorem exists_declares {ds : List Descriptor} {w : Visible} (hw : w ∈ visibleMembers ds) :
    ∃ e, ds.find? (declares w.name) = some e := by
  have hsome : ∃ e ∈ ds, w ∈ visibleProperties e ++ visibleFields e := by
    rcases List.mem_append.1 hw with hw | hw
    · obtain ⟨e, he, hw⟩ := List.mem_flatMap.1 hw
      exact ⟨e, he, List.mem_append_left _ hw⟩
    · obtain ⟨e, he, hw⟩ := List.mem_flatMap.1 hw
      exact ⟨e, he, List.mem_append_right _ hw⟩
  obtain ⟨e, he, hw⟩ := hsome
  rw [← Option.isSome_iff_exists, List.find?_isSome]
  exact ⟨e, he, List.any_eq_true.2 ⟨w, hw, by simp⟩⟩

/-- The type that comes first among those that have a member of the name has the foremost one,
    unless it has it as a plain field and some type of the others as a property. -/
theorem foremost?_mem_iff {ds : List Descriptor} {n : String} {v : Visible} {e : Descriptor}
    (hv : foremost? ds n = some v) (he : ds.find? (declares n) = some e) :
    v ∈ visibleProperties e ++ visibleFields e ↔
      (∃ p ∈ visibleProperties e, p.name = n) ∨
        ∀ c ∈ ds, ∀ p ∈ visibleProperties c, p.name ≠ n := by
  have hdeclares := List.find?_some he
  have hmem := List.mem_of_find?_eq_some he
  have hbefore := fun c hc => find?_of_not_declares (n := n) (e := c) hc
  constructor
  · intro hin
    rcases Option.or_eq_some_iff.1 hv with hv | ⟨hnone, -⟩
    · -- The foremost member is a property, so it is one of `e`.
      obtain ⟨c, -, hc⟩ := List.exists_of_findSome?_eq_some hv
      have hproperty := isProperty_of_mem (List.mem_of_find?_eq_some hc)
      rcases List.mem_append.1 hin with hin | hin
      · exact .inl ⟨v, hin, by simpa using List.find?_some hc⟩
      · rw [(plain_of_mem hin).1] at hproperty
        cases hproperty
    · refine .inr fun c hc p hp heq => ?_
      have hnot := List.find?_eq_none.1 (List.findSome?_eq_none_iff.1 hnone c hc) p hp
      simp [heq] at hnot
  · rintro (⟨p, hp, hpn⟩ | hnone)
    · obtain ⟨q, hq⟩ := exists_find?_name hp hpn
      have hfirst := findSome?_of_find? he (fun c hc => (hbefore c hc).1) hq
      rw [foremost?, hfirst, Option.some_or, Option.some_inj] at hv
      exact List.mem_append_left _ (hv ▸ List.mem_of_find?_eq_some hq)
    · -- No type has a property of the name, so `e` has a plain field.
      obtain ⟨w, hw, hwn⟩ := List.any_eq_true.1 hdeclares
      have hwn : w.name = n := by simpa using hwn
      have hfield : w ∈ visibleFields e :=
        (List.mem_append.1 hw).resolve_left fun hw => hnone e hmem w hw hwn
      obtain ⟨q, hq⟩ := exists_find?_name hfield hwn
      have hfirst := findSome?_of_find? he (fun c hc => (hbefore c hc).2) hq
      have hproperties : (ds.findSome? fun c => (visibleProperties c).find? (·.name == n)) = none :=
        List.findSome?_eq_none_iff.2 fun c hc => List.find?_eq_none.2 fun p hp => by
          simpa using hnone c hc p hp
      rw [foremost?, hproperties, Option.none_or, hfirst, Option.some_inj] at hv
      exact List.mem_append_right _ (hv ▸ List.mem_of_find?_eq_some hq)

/-- The field of a name that some visible member of the hierarchy has, on any session: there is one
    such field, made from the foremost member.  The most derived type that has a visible member of
    the name declares this one exactly if it has a property of the name or no type has. -/
theorem field_of_name (g : Graph) (o : Options) (d : Descriptor) (n : String)
    (hn : ∃ v ∈ visibleMembers (g.hierarchy d), v.name = n) (s : Session) :
    ∃ v f e, foremost? (g.hierarchy d) n = some v ∧
      ((fields g o d true).run s).1.filter (·.name == keyName n) = [f] ∧ Fielded g o s v f ∧
      (g.hierarchy d).find? (declares n) = some e ∧
      (v ∈ visibleProperties e ++ visibleFields e ↔
        (∃ p ∈ visibleProperties e, p.name = n) ∨
          ∀ c ∈ g.hierarchy d, ∀ p ∈ visibleProperties c, p.name ≠ n) := by
  obtain ⟨w, hw, rfl⟩ := hn
  obtain ⟨v, hv⟩ := exists_find?_name hw rfl
  obtain ⟨e, he⟩ := exists_declares hw
  rw [find?_visibleMembers] at hv
  -- The kept member of the name is the foremost one.
  have hkept : (keptMembers g d true).filter (·.name == w.name) = [v] := by
    rw [keptMembers, filter_firsts, candidates, if_pos rfl, find?_visibleMembers, hv]
    rfl
  have hfields := filter_fielded w.name (fields_returns g o d true s)
  rw [hkept, List.forall₂_cons_left_iff] at hfields
  obtain ⟨f, fs, hf, hnil, hfs⟩ := hfields
  rw [List.forall₂_nil_left_iff] at hnil
  exact ⟨v, f, e, hv, hnil ▸ hfs, hf, he, foremost?_mem_iff hv he⟩

/-- Of two properties the one of the coat is kept. -/
theorem coatFields_size :
    ∃ v f, ((fields coatGraph {} coat true).run .start).1.filter (·.name == "Size") = [f] ∧
      Fielded coatGraph {} .start v f ∧ v ∈ visibleProperties coat ++ visibleFields coat ∧
      f = ⟨"Size", "integer", .unknown, false⟩ := by
  have hn : ∃ v ∈ visibleMembers (coatGraph.hierarchy coat), v.name = "Size" := by
    have hany : (visibleMembers (coatGraph.hierarchy coat)).any (·.name == "Size") = true := by
      decide +kernel
    simpa using hany
  obtain ⟨v, f, e, -, hf, hfielded, he, hiff⟩ := field_of_name coatGraph {} coat "Size" hn .start
  have hcoat : (coatGraph.hierarchy coat).find? (declares "Size") = some coat :=
    List.find?_cons_of_pos (by decide +kernel)
  obtain rfl : e = coat := Option.some_inj.1 (he.symm.trans hcoat)
  have hsize : ((fields coatGraph {} coat true).run .start).1.filter (·.name == keyName "Size")
      = [⟨"Size", "integer", .unknown, false⟩] := by decide +kernel
  refine ⟨v, f, hf, hfielded, hiff.2 (.inl ?_), ?_⟩
  · have hany : (visibleProperties coat).any (·.name == "Size") = true := by decide +kernel
    simpa using hany
  · rw [hsize] at hf
    exact (List.cons.inj hf).1.symm

/-- The lining of the coat is passed over: of all types of the hierarchy the coat comes first, but
    the field has the type that the garment gives it. -/
theorem coatFields_lining :
    (coatGraph.hierarchy coat).find? (declares "lining") = some coat ∧
      ((fields coatGraph {} coat true).run .start).1.filter (·.name == "lining")
        = [⟨"lining", "string", .unknown, false⟩] ∧
      ∀ v ∈ visibleProperties coat ++ visibleFields coat, v.name = "lining" →
        ((typeText coatGraph {} false v.type).run .start).1 = "integer" := by
  refine ⟨List.find?_cons_of_pos (by decide +kernel), by decide +kernel, ?_⟩
  decide +kernel

end EmmyStubs.Members
