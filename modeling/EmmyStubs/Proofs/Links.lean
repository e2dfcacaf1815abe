import EmmyStubs.Proofs.Dependencies

/-! # Types that a graph refers to

    A type of the graph refers to others in any role (`Descriptor.links`):

    * **`Graph.Linked`**: some type of the graph refers to it.  All that is ever mapped is.
    * **`Graph.Closed`**: the graph describes all that it refers to, so from a type that it
      refers to, dependencies lead to types that it describes.
-/

namespace EmmyStubs.Graph

variable {g : Graph} {o : Options}

/-- Some type of the graph refers to `t`. -/
def Linked (g : Graph) (t : Identity) : Prop :=
  ∃ d, g.Has d ∧ t ∈ d.links

/-- The graph describes all that it refers to. -/
def Closed (g : Graph) : Prop :=
  ∀ t, g.Linked t → g.Knows t

/-! ## §1. Types found on the way -/

theorem has_of_mem_findAll {ids : List Identity} {d : Descriptor} (h : d ∈ g.findAll ids) :
    g.Has d := by
  obtain ⟨id, -, hid⟩ := List.mem_filterMap.1 h
  exact has_of_find? hid

theorem chain_none {next : Descriptor → Option Identity} {seen : List Identity} :
    g.chain next seen none = [] := by
  rw [chain]

/-- A walk along a link goes on from a type that was not seen. -/
theorem chain_of_find? {next : Descriptor → Option Identity} {seen : List Identity} {id : Identity}
    {d : Descriptor} (hn : id ∉ seen) (hd : g.find? id = some d) :
    g.chain next seen (some id) = d :: g.chain next (id :: seen) (next d) := by
  rw [chain, dif_neg hn]
  split
  · next h => rw [hd] at h; exact absurd h (by simp)
  · next d' hd' =>
    rw [hd, Option.some.injEq] at hd'
    rw [hd']

theorem has_of_mem_chain {next : Descriptor → Option Identity} {seen : List Identity}
    {start : Option Identity} {d : Descriptor} (h : d ∈ g.chain next seen start) : g.Has d := by
  fun_induction chain g next seen start with
  | case1 => simp at h
  | case2 => simp at h
  | case3 => simp at h
  | case4 seen id hn e he ih =>
    rcases List.mem_cons.1 h with rfl | h
    · exact has_of_find? he
    · exact ih h

theorem has_of_mem_hierarchy {d e : Descriptor} (hd : g.Has d) (h : e ∈ g.hierarchy d) :
    g.Has e := by
  rcases List.mem_cons.1 h with rfl | h
  · exact hd
  · exact has_of_mem_chain h

theorem has_of_implementation? {shapes : List Identity} {d e : Descriptor} (hd : g.Has d)
    (h : g.implementation? shapes d = some e) : g.Has e := by
  obtain ⟨c, hc, he⟩ := List.exists_of_findSome?_eq_some h
  rcases List.mem_cons.1 (List.mem_of_find?_eq_some he) with rfl | he
  · exact has_of_mem_hierarchy hd hc
  · exact has_of_mem_findAll he

/-! ## §2. Links of members -/

variable {d : Descriptor} (hd : g.Has d)
include hd

theorem linked_of_element {t : Identity} (h : d.element = some t) : g.Linked t :=
  ⟨d, hd, by simp [Descriptor.links, h]⟩

theorem linked_of_genericArgument {t : Identity} (h : t ∈ d.genericArguments) : g.Linked t :=
  ⟨d, hd, by simp [Descriptor.links, h]⟩

theorem linked_of_field {f : Descriptor.Field} (h : f ∈ d.fields) : g.Linked f.type := by
  refine ⟨d, hd, ?_⟩
  have : f.type ∈ d.fields.flatMap Descriptor.Field.links :=
    List.mem_flatMap.2 ⟨f, h, List.mem_singleton_self _⟩
  simp only [Descriptor.links, List.mem_append, this, true_or, or_true]

theorem linked_of_property {p : Descriptor.Property} (h : p ∈ d.properties) {t : Identity}
    (ht : t ∈ p.links) : g.Linked t := by
  refine ⟨d, hd, ?_⟩
  have : t ∈ d.properties.flatMap Descriptor.Property.links := List.mem_flatMap.2 ⟨p, h, ht⟩
  simp only [Descriptor.links, List.mem_append, this, true_or, or_true]

/-- A method that a type has in some role. -/
theorem linked_of_method {m : Descriptor.Method}
    (h : m ∈ d.methods ∨ m ∈ d.constructors ∨ d.invoke = some m) {t : Identity}
    (ht : t ∈ m.links) : g.Linked t := by
  refine ⟨d, hd, ?_⟩
  have hmem : ∀ ms : List Descriptor.Method, m ∈ ms → t ∈ ms.flatMap Descriptor.Method.links :=
    fun ms hm => List.mem_flatMap.2 ⟨m, hm, ht⟩
  simp only [Descriptor.links, List.mem_append]
  rcases h with h | h | h
  · exact .inl (.inl (.inr (hmem _ h)))
  · exact .inl (.inr (hmem _ h))
  · exact .inr (hmem _ (by simp [h]))

omit hd

/-- The type that a parameter is annotated with is the type of the parameter or its element. -/
theorem linked_annotatedType {p : Descriptor.Parameter} (h : g.Linked p.type) :
    g.Linked (g.annotatedType p) := by
  unfold annotatedType
  split
  · next e he =>
    split
    · cases hel : e.element with
      | none => exact h
      | some el => exact linked_of_element (has_of_find? he) hel
    · exact h
  · exact h

/-- What the parameters and the result of a method are annotated with. -/
theorem linked_of_signature {m : Descriptor.Method} (h : ∀ t ∈ m.links, g.Linked t) :
    ∀ t ∈ m.parameters.map g.annotatedType ++ m.returnType.toList, g.Linked t := by
  intro t ht
  rcases List.mem_append.1 ht with ht | ht
  · obtain ⟨p, hp, rfl⟩ := List.mem_map.1 ht
    refine linked_annotatedType (h _ ?_)
    have : p.type ∈ m.parameters.flatMap Descriptor.Parameter.links :=
      List.mem_flatMap.2 ⟨p, hp, List.mem_singleton_self _⟩
    simp only [Descriptor.Method.links, List.mem_append, this, true_or]
  · refine h t ?_
    simp only [Descriptor.Method.links, List.mem_append, ht, true_or, or_true]

/-- The key and the value of a public indexer. -/
theorem linked_of_indexerLinks {ps : List Descriptor.Property}
    (h : ∀ p ∈ ps, ∀ t ∈ p.links, g.Linked t) : ∀ t ∈ indexerLinks ps, g.Linked t := by
  fun_induction indexerLinks ps with
  | case1 => simp
  | case2 p ps i is hi _ ih =>
    have hp := h p List.mem_cons_self
    have hrest := ih fun q hq => h q (List.mem_cons_of_mem p hq)
    have hkey : i.type ∈ p.links := by
      simp [Descriptor.Property.links, hi, Descriptor.Parameter.links]
    have hvalue : p.type ∈ p.links := List.mem_cons_self
    intro t ht
    rcases List.mem_cons.1 ht with rfl | ht
    · exact hp _ hkey
    · rcases List.mem_cons.1 ht with rfl | ht
      · exact hp _ hvalue
      · exact hrest t ht
  | case3 p ps _ ih => exact ih fun q hq => h q (List.mem_cons_of_mem p hq)

/-! ## §3. Dependencies -/

include hd

theorem linked_of_iterationLinks {shapes : List Identity} :
    ∀ t ∈ g.iterationLinks shapes d, g.Linked t := by
  intro t ht
  unfold iterationLinks at ht
  rw [Option.mem_toList, Option.bind_eq_some_iff] at ht
  obtain ⟨e, he, ht⟩ := ht
  exact linked_of_genericArgument (has_of_implementation? hd he) (List.mem_of_head? ht)

theorem linked_of_namedLinks : ∀ t ∈ g.namedLinks d, g.Linked t := by
  intro t ht
  unfold namedLinks at ht
  split at ht
  · simp only [compositeLinks, List.mem_append] at ht
    rcases ht with (ht | ht) | ht
    · refine linked_of_indexerLinks (fun p hp => ?_) t ht
      obtain ⟨e, he, hp⟩ := List.mem_flatMap.1 hp
      exact fun u hu => linked_of_property (has_of_mem_hierarchy hd he) hp hu
    · exact linked_of_iterationLinks hd t ht
    · exact linked_of_iterationLinks hd t ht
  · simp at ht

theorem linked_of_instantiationLinks : ∀ t ∈ g.instantiationLinks o d, g.Linked t := by
  have hargs := fun t => linked_of_genericArgument hd (t := t)
  intro t ht
  unfold instantiationLinks at ht
  cases hcase : d.genericArguments with
  | nil =>
    rw [hcase] at ht
    exact linked_of_namedLinks hd t ht
  | cons a rest =>
    rw [hcase] at ht hargs
    dsimp only at ht
    split at ht
    · rw [List.mem_singleton] at ht
      exact hargs t (by simp [ht])
    · cases rest with
      | nil => exact linked_of_namedLinks hd t ht
      | cons b bs =>
        dsimp only at ht
        split at ht
        · simp only [List.mem_cons, List.not_mem_nil, or_false] at ht
          exact hargs t (by rcases ht with rfl | rfl <;> simp)
        · exact linked_of_namedLinks hd t ht

theorem linked_of_nullableUnderlying? {t : Identity} (h : d.nullableUnderlying? = some t) :
    g.Linked t := by
  unfold Descriptor.nullableUnderlying? at h
  split at h
  · exact linked_of_element hd h
  · split at h
    · exact linked_of_genericArgument hd (List.mem_of_head? h)
    · simp at h

/-- The graph refers to the dependencies of its types. -/
theorem linked_of_dependencies : ∀ t ∈ g.dependencies o d, g.Linked t := by
  have helement : ∀ t ∈ d.element.toList, g.Linked t := fun t ht =>
    linked_of_element hd (Option.mem_toList.1 ht)
  have hdelegate : ∀ t ∈ g.delegateLinks d, g.Linked t := by
    intro t ht
    unfold delegateLinks at ht
    split at ht
    · simp at ht
    · next i hi => exact linked_of_signature (fun u => linked_of_method hd (.inr (.inr hi))) t ht
  have hunderlying := fun t => linked_of_nullableUnderlying? hd (t := t)
  have hother := linked_of_instantiationLinks (o := o) hd
  intro t ht
  unfold dependencies at ht
  -- Every rule but the one for nullable types is covered by one of the facts above.
  repeat' split at ht
  all_goals first
    | exact helement t ht
    | exact hdelegate t ht
    | exact hother t ht
    | simp at ht
  all_goals exact ht ▸ hunderlying _ ‹_›

omit hd

theorem linked_of_depends {t u : Identity} (h : g.Depends o t u) : g.Linked u := by
  obtain ⟨d, hd, hu⟩ := depends_iff.1 h
  exact linked_of_dependencies (has_of_find? hd) u hu

/-- From a type that it refers to, a closed graph leads to known types only. -/
theorem Closed.knows_of_leads (hg : g.Closed) {t u : Identity} (ht : g.Linked t)
    (h : g.Leads o t u) : g.Knows u := by
  rcases Relation.ReflTransGen.cases_tail h with rfl | ⟨v, -, hv⟩
  · exact hg _ ht
  · exact hg _ (linked_of_depends hv)

end EmmyStubs.Graph
