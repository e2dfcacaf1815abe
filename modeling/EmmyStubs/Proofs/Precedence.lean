import EmmyStubs.Proofs.Expressions
import EmmyStubs.Proofs.Links
import EmmyStubs.Proofs.Walks
import EmmyStubs.Proofs.Workers

/-! # Parentheses where they are needed

    An expression is marked where it needs parentheses as a part of a larger one.

    * **`PlainNames`**: names and namespaces hold no brackets and no bars, those of arrays and
      by-reference types apart, which do not show.
    * **`Surroundings.yields_compute`**: an expression that is made of spelled ones is spelled.
    * **`Session.WellSpelled`**: what the caches hold shows no bracket out of place.  Every request
      that a mapping makes keeps this, whatever other workers do in between (`mapOn_yields`).
    * **`mapping_exact`**: so every expression that is mapped is spelled, at every moment, and its
      mark is exact.
-/

namespace EmmyStubs

open EmmyStubs.Text

/-! ## §1. Plain names -/

/-- An array or a by-reference type, whose name is made of the name of its element. -/
def Descriptor.IsWrapper (d : Descriptor) : Prop :=
  d.kind = .array ∨ d.kind = .byRef

instance (d : Descriptor) : Decidable d.IsWrapper :=
  inferInstanceAs (Decidable (d.kind = .array ∨ d.kind = .byRef))

/-- In some graphs whose types are mapped on one session, no type is declared by an array or a
    by-reference type, and no name but theirs holds a bracket or a bar.  What is an array or a
    by-reference type in one graph is so in all. -/
structure PlainNames (graphs : List Graph) : Prop where
  names : ∀ g ∈ graphs, ∀ d, g.Has d → ¬d.IsWrapper →
    Unmarked d.name.toList ∧ ∀ space ∈ d.space, Unmarked space.toList
  declaring : ∀ g ∈ graphs, ∀ d, g.Has d → ∀ id ∈ d.declaring, ∀ e, g.find? id = some e →
    ¬e.IsWrapper
  parameters : ∀ g ∈ graphs, ∀ d, g.Has d → ∀ m ∈ d.invoke, ∀ p ∈ m.parameters,
    ∀ name ∈ p.name, Unmarked name.toList
  wrappers : ∀ g ∈ graphs, ∀ g' ∈ graphs, ∀ d d', g.Has d → g'.Has d' →
    d.identity = d'.identity → (d.IsWrapper ↔ d'.IsWrapper)

namespace PlainNames

variable {graphs : List Graph} {g : Graph} {d : Descriptor}

/-- For a graph that has its session to itself, the first three are enough. -/
theorem single
    (hnames : ∀ d ∈ g.descriptors, ¬d.IsWrapper →
      Unmarked d.name.toList ∧ ∀ space ∈ d.space, Unmarked space.toList)
    (hdeclaring : ∀ d ∈ g.descriptors, ∀ id ∈ d.declaring, ∀ e ∈ g.descriptors,
      e.identity = id → ¬e.IsWrapper)
    (hparameters : ∀ d ∈ g.descriptors, ∀ m ∈ d.invoke, ∀ p ∈ m.parameters, ∀ name ∈ p.name,
      Unmarked name.toList) : PlainNames [g] where
  names := by
    rintro _ hg d hd
    rw [List.mem_singleton.1 hg] at hd
    exact hnames d (Graph.mem_of_find? hd)
  declaring := by
    rintro _ hg d hd id hid e he
    rw [List.mem_singleton.1 hg] at hd he
    exact hdeclaring d (Graph.mem_of_find? hd) id hid e (Graph.mem_of_find? he)
      (Graph.identity_of_find? he)
  parameters := by
    rintro _ hg d hd
    rw [List.mem_singleton.1 hg] at hd
    exact hparameters d (Graph.mem_of_find? hd)
  wrappers := by
    intro g₁ hg₁ g₂ hg₂ d d' hd hd' heq
    rw [List.mem_singleton.1 hg₁] at hd
    rw [List.mem_singleton.1 hg₂] at hd'
    -- An identity has one descriptor in the graph.
    rw [Graph.Has, ← heq, hd] at hd'
    rw [Option.some.inj hd']

theorem of_mem_chain (h : PlainNames graphs) (hg : g ∈ graphs) {seen : List Identity}
    {start : Option Identity} (hstart : ∀ id ∈ start, ∀ e, g.find? id = some e → ¬e.IsWrapper) :
    ∀ e ∈ g.chain (·.declaring) seen start, g.Has e ∧ ¬e.IsWrapper := by
  fun_induction Graph.chain g (·.declaring) seen start with
  | case1 => simp
  | case2 => simp
  | case3 => simp
  | case4 seen id hn d hd ih =>
    have hhas : g.Has d := Graph.has_of_find? hd
    intro e he
    rcases List.mem_cons.1 he with rfl | he
    · exact ⟨hhas, hstart id rfl e hd⟩
    · exact ih (h.declaring g hg d hhas) e he

theorem unmarked_qualifiedName (h : PlainNames graphs) (hg : g ∈ graphs) (hd : g.Has d)
    (hn : ¬d.IsWrapper) : Unmarked (g.qualifiedName d).toList := by
  have hpoint : Unmarked ".".toList := by decide
  have hown := h.names g hg d hd hn
  unfold Graph.qualifiedName
  split
  · decide
  · rw [String.toList_intercalate]
    refine unmarked_intercalate hpoint fun part hpart => ?_
    obtain ⟨name, hname, rfl⟩ := List.mem_map.1 hpart
    rcases List.mem_append.1 hname with hname | hname
    · rcases List.mem_append.1 hname with hname | hname
      · exact hown.2 name (Option.mem_filter_iff.1 (Option.mem_toList.1 hname)).1
      · -- The types around the type are no arrays, so their names are plain as well.
        obtain ⟨e, he, rfl⟩ := List.mem_map.1 hname
        have hchain := h.of_mem_chain hg (h.declaring g hg d hd) e (List.mem_reverse.1 he)
        exact (h.names g hg e hchain.1 hchain.2).1
    · exact List.mem_singleton.1 hname ▸ hown.1

/-- Escaping a keyword puts nothing around it but underscores. -/
theorem unmarked_stubName {p : Descriptor.Parameter} (h : ∀ name ∈ p.name, Unmarked name.toList) :
    Unmarked p.stubName.toList := by
  have hescape : ∀ name : String, Unmarked name.toList →
      Unmarked (Lua.escapeKeyword name).toList := by
    intro name hname
    have hscores : Unmarked "__".toList := by decide
    unfold Lua.escapeKeyword
    split
    · rw [String.toList_append, String.toList_append]
      exact (hscores.append hname).append hscores
    · exact hname
  have harg : Unmarked "arg".toList := by decide
  unfold Descriptor.Parameter.stubName
  refine hescape _ ?_
  cases hname : p.name with
  | none => exact harg
  | some name =>
    dsimp only
    split
    · exact harg
    · exact h name hname

end PlainNames

namespace Surroundings

/-! ## §2. Expressions made of expressions -/

variable {Inv : Session → Prop} {e : Surroundings Walk}

open Walk

theorem spelled_void : Spelled ⟨Lua.void, false⟩ :=
  .word (by decide)

theorem spelled_userdata : Spelled ⟨Lua.userdata, false⟩ :=
  .word (by decide)

theorem spelled_sequence (style : EnumerableStyle) {t : TypeExpr} (h : Spelled t) :
    Spelled (sequence style t.text) := by
  have hnil : Spelled ⟨"nil", false⟩ := .word (by decide)
  cases style with
  | table =>
    have htable := Spelled.table hnil h
    dsimp only at htable
    exact htable
  | function =>
    exact .iterator h

/-- A union of spelled alternatives is spelled, be it of one part or of several. -/
theorem spelled_union {ts : List TypeExpr} (h : ∀ t ∈ ts, Spelled t) :
    Spelled (Union.empty.addAll ts).toExpr := by
  have hadd : ∀ (ts : List TypeExpr) (u : Union), (∀ t ∈ ts, Spelled t) →
      (∀ t ∈ u.parts, Spelled t) → ∀ t ∈ (u.addAll ts).parts, Spelled t := by
    intro ts
    induction ts with
    | nil => exact fun u _ hu => hu
    | cons t ts ih =>
      intro u hts hu
      refine ih (u.add t) (fun v hv => hts v (List.mem_cons_of_mem t hv)) fun v hv => ?_
      unfold Union.add at hv
      split at hv
      · exact hu v hv
      · rcases List.mem_append.1 hv with hv | hv
        · exact hu v hv
        · exact List.mem_singleton.1 hv ▸ hts t List.mem_cons_self
  have hparts := hadd ts .empty h (by simp [Union.empty])
  cases hunion : Union.empty.addAll ts with
  | mk parts =>
  rw [hunion] at hparts
  match parts, hparts with
  | [], _ => exact spelled_userdata
  | [t], hparts => exact hparts t List.mem_cons_self
  | t :: u :: ts, hparts =>
    have hlength : 2 ≤ (t :: u :: ts).length := by simp
    exact .union hlength hparts fun v hv => (hparts v hv).tight

section

variable (hmap : ∀ id, Yields Inv Spelled (e.map id))
include hmap

theorem yields_text (asPart : Bool) (id : Identity) :
    Yields Inv (fun text => ∃ t, Spelled t ∧ text = t.render asPart) (e.text asPart id) :=
  (hmap id).bind fun t ht => .pure ⟨t, ht, rfl⟩

/-- On its own, an expression is just its text. -/
theorem yields_whole (id : Identity) :
    Yields Inv (fun text => ∃ t, Spelled t ∧ text = t.text) (e.text false id) :=
  yields_text hmap false id

theorem yields_stubParameters {ps : List Descriptor.Parameter}
    (hnames : ∀ p ∈ ps, ∀ name ∈ p.name, Unmarked name.toList) :
    Yields Inv (fun out => ∃ items : List (Stub.Parameter × TypeExpr), out = items.map (·.1) ∧
        (∀ i ∈ items, Unmarked i.1.name.toList) ∧ (∀ i ∈ items, i.1.type = i.2.render true) ∧
        ∀ i ∈ items, Spelled i.2)
      (stubParameters e.graph (e.text true) ps) := by
  induction ps with
  | nil => exact .pure ⟨[], rfl, by simp, by simp, by simp⟩
  | cons p ps ih =>
    have hrest := ih fun q hq => hnames q (List.mem_cons_of_mem p hq)
    have hname := PlainNames.unmarked_stubName (hnames p List.mem_cons_self)
    refine (yields_text hmap true _).bind fun type htype => ?_
    obtain ⟨t, ht, rfl⟩ := htype
    refine hrest.bind fun out hout => .pure ?_
    obtain ⟨items, rfl, hitemNames, hitemTypes, hitems⟩ := hout
    refine ⟨(⟨p.stubName, t.render true, p.isOptional, p.isVariadic⟩, t) :: items, rfl, ?_, ?_, ?_⟩
    · exact List.forall_mem_cons.2 ⟨hname, hitemNames⟩
    · exact List.forall_mem_cons.2 ⟨rfl, hitemTypes⟩
    · exact List.forall_mem_cons.2 ⟨ht, hitems⟩

theorem yields_returnText (type : Option Identity) :
    Yields Inv (fun text => ∃ t, Spelled t ∧ text = t.text)
      (returnText (e.text false) type) := by
  cases type with
  | none => exact .pure ⟨_, spelled_void, rfl⟩
  | some id => exact yields_whole hmap id

/-! ### Types without a name -/

theorem yields_delegate {d : Descriptor}
    (hnames : ∀ m ∈ d.invoke, ∀ p ∈ m.parameters, ∀ name ∈ p.name, Unmarked name.toList) :
    Yields Inv Spelled (e.delegate d) := by
  unfold delegate
  cases hinvoke : d.invoke with
  | none =>
    have hempty := @Spelled.function [] _ (by simp) (by simp) (by simp) spelled_void
    exact .pure hempty
  | some i =>
    refine (yields_stubParameters hmap (hnames i hinvoke)).bind fun out hout => ?_
    obtain ⟨items, rfl, hitemNames, hitemTypes, hitems⟩ := hout
    refine (yields_returnText hmap i.returnType).bind fun text htext => ?_
    obtain ⟨result, hresult, rfl⟩ := htext
    exact .pure (.function hitemNames hitemTypes hitems hresult)

theorem yields_indexers (ps : List Descriptor.Property) :
    Yields Inv (fun ts => ∀ t ∈ ts, Spelled t) (e.indexers ps) := by
  induction ps with
  | nil => exact .pure (by simp)
  | cons p ps ih =>
    unfold indexers
    split
    · refine (yields_whole hmap _).bind fun key hkey => ?_
      obtain ⟨key, hkey, rfl⟩ := hkey
      refine (yields_whole hmap _).bind fun value hvalue => ?_
      obtain ⟨value, hvalue, rfl⟩ := hvalue
      refine ih.bind fun rest hrest => .pure ?_
      exact List.forall_mem_cons.2 ⟨.table hkey hvalue, hrest⟩
    · exact ih

theorem yields_iteration (shapes : List Identity) (d : Descriptor) :
    Yields Inv (fun ts => ∀ t ∈ ts, Spelled t) (e.iteration shapes d) := by
  unfold iteration
  split
  · exact .pure (by simp)
  · refine (yields_whole hmap _).bind fun item hitem => .pure ?_
    obtain ⟨t, ht, rfl⟩ := hitem
    intro u hu
    rw [List.mem_singleton.1 hu]
    exact spelled_sequence e.options.style ht

theorem yields_composite (d : Descriptor) : Yields Inv Spelled (e.composite d) := by
  refine (yields_indexers hmap _).bind fun tables htables => ?_
  refine (yields_iteration hmap _ d).bind fun items hitems => ?_
  refine (yields_iteration hmap _ d).bind fun steps hsteps => .pure (spelled_union ?_)
  intro t ht
  simp only [List.cons_append, List.mem_cons, List.mem_append] at ht
  rcases ht with rfl | (ht | ht) | ht
  · exact spelled_userdata
  · exact htables t ht
  · exact hitems t ht
  · exact hsteps t ht

/-! ### All types -/

theorem yields_named {d : Descriptor}
    (hname : Yields Inv (fun name => Unmarked name.toList) (e.resolve d)) :
    Yields Inv Spelled (e.named d) := by
  refine hname.bind fun name hname => ?_
  split
  · exact yields_composite hmap d
  · exact .pure (.word hname)

theorem yields_instantiation {d : Descriptor}
    (hname : Yields Inv (fun name => Unmarked name.toList) (e.resolve d)) :
    Yields Inv Spelled (e.instantiation d) := by
  have hnamed := yields_named hmap hname
  unfold instantiation
  cases d.genericArguments with
  | nil => exact hnamed
  | cons a rest =>
    dsimp only
    split
    · refine (yields_text hmap true a).bind fun item hitem => .pure ?_
      obtain ⟨t, ht, rfl⟩ := hitem
      exact .list ht ht.tight
    · cases rest with
      | nil => exact hnamed
      | cons b rest =>
        dsimp only
        split
        · refine (yields_whole hmap a).bind fun key hkey => ?_
          obtain ⟨key, hkey, rfl⟩ := hkey
          refine (yields_whole hmap b).bind fun value hvalue => .pure ?_
          obtain ⟨value, hvalue, rfl⟩ := hvalue
          exact .table hkey hvalue
        · exact hnamed

/-- An expression that is made of spelled ones is spelled, where the names are plain. -/
theorem yields_compute {d : Descriptor}
    (hname : ¬d.IsWrapper → Yields Inv (fun name => Unmarked name.toList) (e.resolve d))
    (hown : ¬d.IsWrapper → Unmarked d.name.toList)
    (hnames : ∀ m ∈ d.invoke, ∀ p ∈ m.parameters, ∀ name ∈ p.name, Unmarked name.toList) :
    Yields Inv Spelled (e.compute d) := by
  have htokens : ∀ entry ∈ Lua.primitives, Unmarked entry.2.toList := by decide
  unfold compute
  by_cases hvoid : d.kind = .void
  · rw [if_pos hvoid]
    exact .pure spelled_void
  rw [if_neg hvoid]
  cases hprimitive : Lua.primitive? d.identity with
  | some token =>
    obtain ⟨entry, hentry, rfl⟩ := Option.map_eq_some_iff.1 hprimitive
    exact .pure (.word (htokens entry (List.mem_of_find?_eq_some hentry)))
  | none =>
  dsimp only
  by_cases hparameter : d.isGenericMethodParameter = true
  · rw [if_pos hparameter]
    have hkind : d.kind = .genericParameter := by
      have := (Bool.and_eq_true_iff.1 hparameter).1
      simpa [Descriptor.isGenericParameter] using this
    exact .pure (.word (hown (by simp [Descriptor.IsWrapper, hkind])))
  rw [if_neg hparameter]
  cases hkind : d.kind with
  | enum =>
    refine (hname (by simp [Descriptor.IsWrapper, hkind])).bind fun name hname => ?_
    exact .pure (.word hname)
  | array =>
    cases d.element with
    | none =>
      have hlist : Spelled ⟨Lua.userdata ++ "[]", false⟩ :=
        .list spelled_userdata spelled_userdata.tight
      exact .pure hlist
    | some el =>
      refine (yields_text hmap true el).bind fun item hitem => .pure ?_
      obtain ⟨t, ht, rfl⟩ := hitem
      exact .list ht ht.tight
  | byRef =>
    cases d.element with
    | none => exact .pure spelled_userdata
    | some el => exact hmap el
  | _ =>
    -- A kind without a rule of its own: a delegate, a nullable type, or a named one.
    have hwrapper : ¬d.IsWrapper := by simp [Descriptor.IsWrapper, hkind]
    dsimp only
    split
    · exact yields_delegate hmap hnames
    · split
      · refine (yields_text hmap true _).bind fun text htext => .pure ?_
        obtain ⟨t, ht, rfl⟩ := htext
        exact .optional ht ht.tight
      · exact yields_instantiation hmap (hname hwrapper)

end

end Surroundings

/-! ## §3. What the caches hold -/

/-- No held name but that of an array or a by-reference type holds a bracket or a bar, and every
    held expression is spelled. -/
structure Session.WellSpelled (graphs : List Graph) (s : Session) : Prop where
  names : ∀ g ∈ graphs, ∀ d, g.Has d → ¬d.IsWrapper → ∀ name,
    s.names.held? d.identity = some name → Unmarked name.toList
  mappings : ∀ id t, s.mappings.held? id = some t → Spelled t

namespace Session

variable {graphs : List Graph} {s s' : Session}

/-- The invariant looks at nothing but what is held. -/
theorem WellSpelled.congr (h : s.WellSpelled graphs)
    (hnames : ∀ k, s'.names.held? k = s.names.held? k)
    (hmappings : ∀ k, s'.mappings.held? k = s.mappings.held? k) : s'.WellSpelled graphs where
  names := fun g hg d hd hw name hn => h.names g hg d hd hw name (hnames _ ▸ hn)
  mappings := fun id t ht => h.mappings id t (hmappings _ ▸ ht)

/-- A type of one of the graphs may be stored under its qualified name there. -/
theorem WellSpelled.name_store (h : s.WellSpelled graphs) (hplain : PlainNames graphs) {g : Graph}
    (hg : g ∈ graphs) {d : Descriptor} (hd : g.Has d) :
    (s.serve (.name (.store d.identity (g.qualifiedName d)))).2.WellSpelled graphs where
  names := by
    intro g' hg' d' hd' hw name hn
    rw [serve, Cache.serve, Cache.held?_store] at hn
    split at hn
    · next heq =>
      -- The other graph has an array under this identity only if this one has.
      have hsame : d.IsWrapper ↔ d'.IsWrapper :=
        hplain.wrappers g hg g' hg' d d' hd hd' heq.2.symm
      have hw' : ¬d.IsWrapper := fun hwrapper => hw (hsame.1 hwrapper)
      rw [← Option.some.inj hn]
      exact hplain.unmarked_qualifiedName hg hd hw'
    · exact h.names g' hg' d' hd' hw name hn
  mappings := h.mappings

theorem WellSpelled.mapping_store (h : s.WellSpelled graphs) {id : Identity} {t : TypeExpr}
    (ht : Spelled t) : (s.serve (.mapping (.store id t))).2.WellSpelled graphs where
  names := h.names
  mappings := by
    intro id' t' ht'
    rw [serve, Cache.serve, Cache.held?_store] at ht'
    split at ht'
    · exact Option.some.inj ht' ▸ ht
    · exact h.mappings id' t' ht'

end Session

/-! ## §4. The mapper -/

section

open Walk

variable {graphs : List Graph} {g : Graph}

/-- Whatever others store in between, a type that is no array gets a name without brackets. -/
theorem resolve_unmarked (hplain : PlainNames graphs) (hg : g ∈ graphs) {d : Descriptor}
    (hd : g.Has d) (s : Session) :
    (resolve g d).Meets (Session.WellSpelled graphs)
      (fun name _ => ¬d.IsWrapper → Unmarked name.toList) s := by
  refine Action.Meets.bind (Action.Meets.request fun s₁ _ h₁ => ?_)
  refine ⟨h₁.congr (fun k => s₁.names.held?_get _ k) fun _ => rfl, fun s₂ _ _ => ?_⟩
  rw [Session.serve_name_get]
  cases hheld : s₁.names.held? d.identity with
  | some name => exact Action.Meets.pure fun _ _ _ hw => h₁.names g hg d hd hw name hheld
  | none =>
    refine Action.Meets.bind (Action.Meets.request fun s₃ _ h₃ => ?_)
    refine ⟨h₃.congr (fun _ => rfl) fun _ => rfl, fun s₄ _ _ => ?_⟩
    refine Action.Meets.request fun s₅ _ h₅ => ?_
    have hstore := h₅.name_store hplain hg hd
    exact ⟨hstore, fun s₆ _ _ hw => hstore.names g hg d hd hw _ (s₅.names.store_answer _ _)⟩

/-- A frame stores the expression or passes it on. -/
theorem yields_frame {depth : Nat} {id : Identity} {x : Walk TypeExpr}
    (hx : Yields (Session.WellSpelled graphs) Spelled x) :
    Yields (Session.WellSpelled graphs) Spelled (Walk.frame depth id x) := by
  intro s
  refine Action.Meets.bind (Action.Meets.imp (hx s) ?_)
  rintro ⟨t, low⟩ s₁ - - ht
  cases low with
  | some f => exact Action.Meets.pure fun _ _ _ => ht
  | none =>
    show Walk.Meets (Session.WellSpelled graphs) (fun t _ _ => Spelled t)
      (Walk.ofAction (Action.request (.mapping (.store id t)))) s₁
    refine Walk.Meets.ofAction (Action.Meets.request fun s₂ _ h₂ => ?_)
    have hstore : (s₂.serve (.mapping (.store id t))).2.WellSpelled graphs := h₂.mapping_store ht
    -- The answer may be what another worker has stored; it is held, so it is spelled as well.
    exact ⟨hstore, fun _ _ _ => hstore.mappings id _ (s₂.mappings.store_answer id t)⟩

/-- On any stack, whatever others store in between, a type gets a spelled expression. -/
theorem mapOn_yields (hplain : PlainNames graphs) (hg : g ∈ graphs) (o : Options)
    (stack : List Identity) (id : Identity) :
    Yields (Session.WellSpelled graphs) Spelled (mapOn g o stack id) := by
  -- By induction on the number of types of the graph that are not on the stack.
  induction hsize : g.unseen stack using Nat.strongRecOn generalizing stack id with
  | ind n ih =>
  intro s
  rw [mapOn]
  refine Walk.Meets.bind (Walk.Meets.ofAction (Action.Meets.request fun s₁ _ h₁ => ?_))
  refine ⟨h₁.congr (fun _ => rfl) fun k => s₁.mappings.held?_get id k, fun s₂ _ _ => ?_⟩
  rw [Session.serve_mapping_get]
  cases hheld : s₁.mappings.held? id with
  | some t => exact Walk.Meets.pure fun _ _ _ => h₁.mappings id t hheld
  | none =>
    dsimp only
    split
    · -- A type of the stack is a value of unknown shape.
      refine Walk.Meets.bind (Walk.Meets.ofAction (Action.Meets.request fun s₃ _ h₃ => ?_))
      refine ⟨h₃.congr (fun _ => rfl) fun _ => rfl, fun s₄ _ _ => ?_⟩
      exact Action.Meets.pure fun _ _ _ => Surroundings.spelled_userdata
    · next hn =>
      split
      · exact Walk.Meets.pure fun _ _ _ => Surroundings.spelled_userdata
      · next d hd =>
        have hhas : g.Has d := Graph.has_of_find? hd
        have hdeeper : ∀ id', Yields (Session.WellSpelled graphs) Spelled
            (mapOn g o (id :: stack) id') :=
          fun id' => ih _ (hsize ▸ Graph.unseen_cons_lt hd hn) _ id' rfl
        refine yields_frame (Surroundings.yields_compute hdeeper ?_ ?_ ?_) s₂
        · exact fun hw s₃ => Walk.Meets.ofAction <|
            (resolve_unmarked hplain hg hhas s₃).imp fun _ _ _ _ hname => hname hw
        · exact fun hw => (hplain.names g hg d hhas hw).1
        · exact hplain.parameters g hg d hhas

theorem mapType_spelled (hplain : PlainNames graphs) (hg : g ∈ graphs) (o : Options)
    (id : Identity) (s : Session) :
    (mapType g o id).Meets (Session.WellSpelled graphs) (fun t _ => Spelled t) s :=
  Action.Meets.map (mapOn_yields hplain hg o [] id s)

end

/-! ## §5. Calls -/

/-- A type to map, with any options, or a type to name. -/
inductive Call where
  | map (g : Graph) (o : Options) (id : Identity)
  | name (g : Graph) (d : Descriptor)

namespace Call

/-- The call itself; the result is the expression, where a type is mapped. -/
def action : Call → Action (Option TypeExpr)
  | map g o id => do
    let t ← mapType g o id
    return some t
  | name g d => do
    let _ ← resolve g d
    return none

/-- The call is about a type of one of the graphs; any identity may be mapped. -/
def On (graphs : List Graph) : Call → Prop
  | map g _ _ => g ∈ graphs
  | name g d => g ∈ graphs ∧ g.Has d

/-- Every call keeps the invariant, and what it maps is spelled. -/
theorem meets {graphs : List Graph} (hplain : PlainNames graphs) {c : Call} (hc : c.On graphs)
    (s : Session) :
    c.action.Meets (Session.WellSpelled graphs) (fun r _ => ∀ t ∈ r, Spelled t) s := by
  cases c with
  | map g o id =>
    refine Action.Meets.bind ((mapType_spelled hplain hc o id s).imp fun t _ _ _ ht => ?_)
    refine Action.Meets.pure fun _ _ _ u hu => ?_
    exact Option.some.inj hu ▸ ht
  | name g d =>
    refine Action.Meets.bind ((resolve_unmarked hplain hc.1 hc.2 s).imp fun _ _ _ _ _ => ?_)
    exact Action.Meets.pure fun _ _ _ u hu => absurd hu (by simp)

end Call

end EmmyStubs
