import EmmyStubs.Proofs.Chains
import EmmyStubs.Proofs.Linking
import EmmyStubs.Proofs.Reaching
import EmmyStubs.Stub.Printer

/-! # Types that are mapped to nothing

    The empty text stands for what a method returns that returns nothing, and no line is written
    for it.

    * **`Graph.Silent`**: a by-reference type is mapped as what it refers to, unless it has a token
      of its own; a silent type is void, or the way from it ends at a void type.
    * **`Surroundings.yields_compute_text`**: a type that is not void and passes nothing on is
      mapped to nothing only for want of a name.  All else that it is mapped to has some text in it.
    * **`SpellsNothing`**: an external type has no name only if its identity spells nothing at all;
      a described type has one.
    * **`Dump.Concurs`**: a later dump has no text for what an earlier one leaves without; so it is
      if both tell the same of the types of both (`Alike.concurs`).
    * **`Session.Quiet`**: what the caches hold is empty only where it should be, and for all silent
      types.  Every request of a mapping keeps this (`mapOn_quiet`).
    * **`Dump.mapType_silent`**: so silent types are mapped to nothing, and other types to some
      text, except where the way from them ends at an external type that spells nothing.
-/

namespace EmmyStubs

/-! ## §1. What is passed on -/

/-- The type that a by-reference type is mapped as; a primitive type has a token of its own. -/
def Descriptor.referent? (d : Descriptor) : Option Identity :=
  if d.kind = .byRef ∧ Lua.primitive? d.identity = none then d.element else none

theorem Descriptor.mem_links_of_referent? {d : Descriptor} {u : Identity}
    (h : d.referent? = some u) : u ∈ d.links := by
  unfold referent? at h
  split at h
  · simp [links, h]
  · cases h

namespace Graph

variable {g : Graph}

/-- The type is void, or by-reference types lead from it to a void one. -/
def Silent (g : Graph) (id : Identity) : Prop :=
  ∃ d, g.Has d ∧ g.Arrives (·.referent?) id d.identity ∧ d.kind = .void

theorem Silent.runsOut {id : Identity} (h : g.Silent id) : g.RunsOut (·.referent?) id := by
  obtain ⟨d, hd, harrives, hvoid⟩ := h
  exact ⟨d, hd, harrives, if_neg fun hd => by rw [hvoid] at hd; cases hd.1⟩

theorem Silent.head {id u : Identity} (hstep : g.Follows (·.referent?) id u) (h : g.Silent u) :
    g.Silent id := by
  obtain ⟨e, he, harrives, hvoid⟩ := h
  exact ⟨e, he, .head hstep harrives, hvoid⟩

/-- A silent type is void itself, or passes a silent type on. -/
theorem Silent.cases {id : Identity} (h : g.Silent id) :
    ∃ d, g.find? id = some d ∧ (d.kind = .void ∨ ∃ u, d.referent? = some u ∧ g.Silent u) := by
  obtain ⟨e, he, harrives, hvoid⟩ := h
  rcases harrives.cases_head with rfl | ⟨u, ⟨d, hd, hu⟩, harrives⟩
  · exact ⟨e, he, .inl hvoid⟩
  · exact ⟨d, hd, .inr ⟨u, hu, e, he, harrives, hvoid⟩⟩

theorem Silent.knows {id : Identity} (h : g.Silent id) : g.Knows id := by
  obtain ⟨d, hd, -⟩ := h.cases
  exact Option.isSome_of_eq_some hd

end Graph

theorem Lua.primitive?_ne_empty {id : Identity} {token : String}
    (h : Lua.primitive? id = some token) : token ≠ "" := by
  have htokens : ∀ entry ∈ Lua.primitives, entry.2 ≠ "" := by decide
  obtain ⟨entry, hentry, rfl⟩ := Option.map_eq_some_iff.1 h
  exact htokens entry (List.mem_of_find?_eq_some hentry)

/-- What is added behind the first part of a union leaves it a text. -/
theorem Union.text_ne_empty {t : TypeExpr} (ht : t.text ≠ "") (ts : List TypeExpr) :
    (Union.empty.addAll (t :: ts)).toExpr.text ≠ "" := by
  have hadd : ∀ (ts : List TypeExpr) (u : Union), (∃ rest, u.parts = t :: rest) →
      ∃ rest, (u.addAll ts).parts = t :: rest := by
    intro ts
    induction ts with
    | nil => exact fun u hu => hu
    | cons t' ts ih =>
      rintro u ⟨rest, hu⟩
      refine ih (u.add t') ?_
      unfold Union.add
      split
      · exact ⟨rest, hu⟩
      · exact ⟨rest ++ [t'], by rw [hu, List.cons_append]⟩
  obtain ⟨rest, hparts⟩ := hadd ts (Union.empty.add t) ⟨[], rfl⟩
  change ((Union.empty.add t).addAll ts).toExpr.text ≠ ""
  unfold Union.toExpr
  rw [hparts]
  cases rest with
  | nil => exact ht
  | cons u rest => simp [TypeExpr.render]

/-! ## §2. One type -/

/-- A type that passes another one on is mapped as that. -/
theorem Surroundings.compute_of_referent? {m : Type → Type} [Monad m] {e : Surroundings m}
    {d : Descriptor} {u : Identity} (h : d.referent? = some u) : e.compute d = e.map u := by
  unfold Descriptor.referent? at h
  split at h
  · next hd =>
    obtain ⟨hkind, hprimitive⟩ := hd
    have hparameter : d.isGenericMethodParameter = false := by
      simp [Descriptor.isGenericMethodParameter, Descriptor.isGenericParameter, hkind]
    simp [Surroundings.compute, hkind, hprimitive, hparameter, h]
  · cases h

theorem append_ne_empty (s : String) {t : String} (ht : t ≠ "") : s ++ t ≠ "" :=
  fun h => ht (String.append_eq_empty_iff.1 h).2

theorem functionType_ne_empty (ps : List Stub.Parameter) (returnType : String) :
    Stub.functionType ps returnType ≠ "" := by
  simp [Stub.functionType]

namespace Walk

/-- Keeping an invariant, whatever others do, is a trait of walks. -/
def keeping (Inv : Session → Prop) : Trait Walk where
  Of := Yields Inv fun _ => True
  pure _ := .pure trivial
  bind hx hf := hx.bind fun a _ => hf a

end Walk

namespace Surroundings

open Walk

section

variable {Inv : Session → Prop} {e : Surroundings Walk} {d : Descriptor}
  (hmap : ∀ id, Yields Inv (fun _ => True) (e.map id))
include hmap

theorem yields_part (asPart : Bool) (id : Identity) :
    Yields Inv (fun _ => True) (e.text asPart id) :=
  (keeping Inv).map (hmap id) _

theorem yields_delegate_text : Yields Inv (fun t => t.text ≠ "") (e.delegate d) := by
  unfold delegate
  cases d.invoke with
  | none => exact .pure (functionType_ne_empty _ _)
  | some i =>
    apply Yields.bind ((keeping Inv).stubParameters fun id _ => yields_part hmap true id)
    intro ps _
    apply Yields.bind ((keeping Inv).returnText fun id _ => yields_part hmap false id)
    intro returnType _
    exact .pure (functionType_ne_empty ps returnType)

theorem yields_composite_text : Yields Inv (fun t => t.text ≠ "") (e.composite d) := by
  let L := (keeping Inv).same
  have hmap' : ∀ id, L.Of (e.map id) (e.map id) := fun id => ⟨rfl, hmap id⟩
  have htables : ∀ ps, L.Of (e.indexers ps) (e.indexers ps) := L.indexers hmap'
  have hitems : ∀ shapes, L.Of (e.iteration shapes d) (e.iteration shapes d) :=
    fun shapes => L.iteration hmap' shapes d
  apply Yields.bind (htables _).2
  intro tables _
  apply Yields.bind (hitems Shape.enumerables).2
  intro items _
  apply Yields.bind (hitems Shape.enumerators).2
  intro steps _
  exact .pure (Union.text_ne_empty (by decide) _)

variable {N : Prop} (hname : Yields Inv (fun name => name = "" → N) (e.resolve d))
include hname

/-- A named type is mapped to nothing only if its name is empty. -/
theorem yields_named_text : Yields Inv (fun t => t.text = "" → N) (e.named d) := by
  apply Yields.bind hname
  intro name hN
  split
  · exact (yields_composite_text hmap).imp fun _ ht h => absurd h ht
  · exact .pure hN

theorem yields_instantiation_text : Yields Inv (fun t => t.text = "" → N) (e.instantiation d) := by
  have hnamed := yields_named_text hmap hname
  unfold instantiation
  cases d.genericArguments with
  | nil => exact hnamed
  | cons a rest =>
    dsimp only
    split
    · apply Yields.bind (yields_part hmap true a)
      intro item _
      exact .pure fun h => absurd h (append_ne_empty _ (by decide))
    · cases rest with
      | nil => exact hnamed
      | cons b rest =>
        dsimp only
        split
        · apply Yields.bind (yields_part hmap false a)
          intro key _
          apply Yields.bind (yields_part hmap false b)
          intro value _
          exact .pure fun h => absurd h (append_ne_empty _ (by decide))
        · exact hnamed

/-- A type that is not void and passes nothing on is mapped to nothing only for want of a name. -/
theorem yields_compute_text (hvoid : d.kind ≠ .void) (hreferent : d.referent? = none)
    (hparameter : d.isGenericMethodParameter = true → d.name ≠ "") :
    Yields Inv (fun t => t.text = "" → N) (e.compute d) := by
  unfold compute
  rw [if_neg hvoid]
  cases hprimitive : Lua.primitive? d.identity with
  | some token => exact .pure fun h => absurd h (Lua.primitive?_ne_empty hprimitive)
  | none =>
  dsimp only
  split
  · next hgeneric => exact .pure fun h => absurd h (hparameter hgeneric)
  cases hkind : d.kind with
  | enum =>
    apply Yields.bind hname
    intro name hN
    exact .pure hN
  | array =>
    cases d.element with
    | none => exact .pure fun h => absurd h (by decide)
    | some el =>
      apply Yields.bind (yields_part hmap true el)
      intro item _
      exact .pure fun h => absurd h (append_ne_empty _ (by decide))
  | byRef =>
    -- It would pass its element on.
    have helement : d.element = none := by
      rwa [Descriptor.referent?, if_pos ⟨hkind, hprimitive⟩] at hreferent
    rw [helement]
    exact .pure fun h => absurd h (by decide)
  | _ =>
    -- A kind without a rule of its own: a delegate, a nullable type, or a named one.
    dsimp only
    split
    · exact (yields_delegate_text hmap).imp fun _ ht h => absurd h ht
    · split
      · apply Yields.bind (yields_part hmap true _)
        intro text _
        exact .pure fun h => absurd h (append_ne_empty _ (by decide))
      · exact yields_instantiation_text hmap hname

end

end Surroundings

/-! ## §3. Names -/

namespace Graph

variable {g : Graph}

/-- A name is empty only if all its parts are. -/
theorem parts_of_qualifiedName {d : Descriptor} (h : g.qualifiedName d = "") :
    d.isGeneric = false ∧ d.space? = none ∧ g.declaringChain d = [] ∧ d.name = "" := by
  unfold qualifiedName at h
  split at h
  · exact absurd h (by decide)
  · next hgeneric =>
    by_cases hfront : d.space?.toList ++ (g.declaringChain d).map (·.name) = []
    · rw [hfront, List.nil_append, String.intercalate_singleton] at h
      obtain ⟨hspace, hnames⟩ := List.append_eq_nil_iff.1 hfront
      exact ⟨Bool.eq_false_iff.2 hgeneric, Option.toList_eq_nil_iff.1 hspace,
        List.map_eq_nil_iff.1 hnames, h⟩
    · rw [String.intercalate_append_of_ne_nil hfront (List.cons_ne_nil _ _),
        String.append_eq_empty_iff, String.append_eq_empty_iff] at h
      exact absurd h.1.2 (by decide)

/-- In a closed graph only a type that is not nested has no types around it. -/
theorem declaring_of_declaringChain (hg : g.Closed) {d : Descriptor} (hd : g.Has d)
    (h : g.declaringChain d = []) : d.declaring = none := by
  rw [declaringChain, List.reverse_eq_nil_iff] at h
  cases hdeclaring : d.declaring with
  | none => rfl
  | some t =>
    have hknown : g.Knows t := hg t ⟨d, hd, by simp [Descriptor.links, hdeclaring]⟩
    obtain ⟨e, he⟩ := Option.isSome_iff_exists.1 hknown
    rw [hdeclaring, chain_of_find? List.not_mem_nil he] at h
    cases h

end Graph

namespace Dump

open EmmyStubs.Text

variable {id : Identity} {outer : Option Identity}

/-- An identity that spells neither a name, nor a namespace, nor a type around the type. -/
structure SpellsNothing (id : Identity) : Prop where
  own : simpleName (shapeOf id.toList) = []
  space : spaceOf (shapeOf id.toList) = none
  outer : outerOf (shapeOf id.toList) = none
  plain : '\x60' ∉ id.toList

instance : Decidable (SpellsNothing id) :=
  decidable_of_iff (_ ∧ _ ∧ _ ∧ _)
    ⟨fun h => ⟨h.1, h.2.1, h.2.2.1, h.2.2.2⟩, fun h => ⟨h.own, h.space, h.outer, h.plain⟩⟩

/-- The type around a type that is called by a name is the one that its identity spells. -/
theorem outer_of_ofIdentity (h : Form.ofIdentity id = .named outer ∨
    ∃ definition arguments, Form.ofIdentity id = .instantiation outer definition arguments) :
    outer = outerOf (shapeOf id.toList) := by
  unfold Form.ofIdentity Form.ofName at h
  dsimp only at h
  rcases h with h | ⟨definition, arguments, h⟩
  all_goals
    repeat' split at h
    all_goals cases h <;> rfl

/-- What a type that is called by a name takes from its identity. -/
structure Called (id : Identity) (d : Descriptor) : Prop where
  kind : d.kind = .cls
  name : d.name = String.ofList (simpleName (shapeOf id.toList))
  space : d.space = spaceOf (shapeOf id.toList)
  declaring : d.declaring = outerOf (shapeOf id.toList)
  isGeneric : d.isGeneric = id.toList.contains '\x60'

theorem called_external (h : (external id).kind ∉ [.void, .array, .byRef]) :
    Called id (external id) := by
  unfold external at h ⊢
  cases hform : Form.ofIdentity id with
  | void | byRef | array =>
    rw [hform] at h
    simp [Form.descriptor] at h
  | named outer => exact ⟨rfl, rfl, rfl, outer_of_ofIdentity (.inl hform), rfl⟩
  | instantiation outer definition arguments =>
    exact ⟨rfl, rfl, rfl, outer_of_ofIdentity (.inr ⟨_, _, hform⟩), rfl⟩

theorem afterLast_concat {sep c : Char} (h : c ≠ sep) (s : List Char) :
    afterLast sep (s ++ [c]) = afterLast sep s ++ [c] := by
  simp [afterLast, h]

/-- The other external types have names: that of void, and what an ampersand or a bracket ends. -/
theorem name_external_ne_empty (h : (external id).kind ∈ [.void, .array, .byRef]) :
    (external id).name ≠ "" := by
  unfold external at h ⊢
  cases hform : Form.ofIdentity id with
  | named | instantiation =>
    rw [hform] at h
    simp [Form.descriptor] at h
  | void => simp [Form.descriptor]
  | array => simp [Form.descriptor]
  | byRef element =>
    have hlast : id.toList.getLast? = some '&' := by
      unfold Form.ofIdentity Form.ofName at hform
      dsimp only at hform
      repeat' split at hform
      all_goals first | assumption | cases hform
    obtain ⟨front, hfront⟩ := List.getLast?_eq_some_iff.1 hlast
    have hname : simpleName id.toList = afterLast '.' (afterLast '+' front) ++ ['&'] := by
      rw [simpleName, hfront, afterLast_concat (by decide), afterLast_concat (by decide)]
    simp [Form.descriptor, hname]

/-- An external type without a name spells nothing, if the graph has the type around it. -/
theorem spellsNothing_of_qualifiedName {g : Graph} (hclosed : g.Closed) (hd : g.Has (external id))
    (h : g.qualifiedName (external id) = "") : SpellsNothing id := by
  obtain ⟨hgeneric, hspace, hchain, hname⟩ := Graph.parts_of_qualifiedName h
  obtain ⟨-, hname', hspace', houter', hgeneric'⟩ :=
    called_external fun hkind => name_external_ne_empty hkind hname
  have houter := Graph.declaring_of_declaringChain hclosed hd hchain
  refine ⟨?_, ?_, houter' ▸ houter, fun hmem => ?_⟩
  · simpa using hname'.symm.trans hname
  · cases hsome : spaceOf (shapeOf id.toList) with
    | none => rfl
    | some space =>
      have hfilled : space ≠ "" := fun hempty => spaceOf_ne_empty (hempty ▸ hsome)
      simp [Descriptor.space?, hspace', hsome, hfilled] at hspace
  · rw [hgeneric', List.contains_iff_mem.2 hmem] at hgeneric
    cases hgeneric

/-! ## §4. Accepted dumps -/

/-- The dump was read from some entries. -/
def Accepted (dump : Dump) : Prop :=
  ∃ defaultName source es, ofEntries defaultName source es = .ok dump

/-- The type is an undescribed one that spells nothing, or by-reference types lead to such a one. -/
def Unspelled (dump : Dump) (id : Identity) : Prop :=
  ∃ d ∈ dump.externals, dump.graph.Arrives (·.referent?) id d.identity ∧ SpellsNothing d.identity

/-- What the dump may leave without a text: silent types and unspelled ones. -/
def Mute (dump : Dump) (id : Identity) : Prop :=
  dump.graph.Silent id ∨ dump.Unspelled id

/-- Of the types of both, a later dump has no text for what an earlier one leaves without, and
    passes void on only where the earlier one does. -/
structure Concurs (dump later : Dump) : Prop where
  mute : ∀ id, dump.graph.Knows id → later.graph.Knows id → dump.Mute id → later.Mute id
  silent : ∀ id, dump.graph.Knows id → later.graph.Silent id → dump.graph.Silent id

theorem Concurs.refl (dump : Dump) : dump.Concurs dump :=
  ⟨fun _ _ _ h => h, fun _ _ h => h⟩

variable {dump later : Dump}

/-- The dumps tell the same of each type of both: whether it is void, and which type it passes on;
    and the later one describes no type that the earlier one leaves unspelled. -/
structure Alike (dump later : Dump) : Prop where
  told : ∀ d ∈ dump.graph.descriptors, ∀ d' ∈ later.graph.descriptors,
    d.identity = d'.identity → (d.kind = .void ↔ d'.kind = .void) ∧ d.referent? = d'.referent?
  spelled : ∀ d ∈ dump.externals, ∀ d' ∈ later.types,
    d.identity = d'.identity → ¬SpellsNothing d.identity

instance : Decidable (Alike dump later) :=
  decidable_of_iff (_ ∧ _) ⟨fun h => ⟨h.1, h.2⟩, fun h => ⟨h.1, h.2⟩⟩

/-- Such dumps concur: from a type of both, the same walk leads through both. -/
theorem Alike.concurs (h : dump.Alike later) (hdump : dump.Whole) (hlater : later.Whole) :
    dump.Concurs later := by
  have htold : ∀ u d d', dump.graph.find? u = some d → later.graph.find? u = some d' →
      (d.kind = .void ↔ d'.kind = .void) ∧ d.referent? = d'.referent? := by
    intro u d d' hd hd'
    have hsame := (Graph.identity_of_find? hd).trans (Graph.identity_of_find? hd').symm
    exact h.told d (Graph.mem_of_find? hd) d' (Graph.mem_of_find? hd') hsame
  have hforth : ∀ {id u}, dump.graph.Arrives (·.referent?) id u → later.graph.Knows id →
      later.graph.Arrives (·.referent?) id u ∧ later.graph.Knows u :=
    hlater.closed.arrives_of_alike (fun d u => d.mem_links_of_referent?)
      fun u d d' hd hd' => (htold u d d' hd hd').2
  have hback : ∀ {id u}, later.graph.Arrives (·.referent?) id u → dump.graph.Knows id →
      dump.graph.Arrives (·.referent?) id u ∧ dump.graph.Knows u :=
    hdump.closed.arrives_of_alike (fun d u => d.mem_links_of_referent?)
      fun u d' d hd' hd => (htold u d d' hd hd').2.symm
  constructor
  · intro id _ hid hmute
    rcases hmute with ⟨d, hd, harrives, hvoid⟩ | ⟨d, hexternal, harrives, hspells⟩
    all_goals
      obtain ⟨harrives', hknown⟩ := hforth harrives hid
      obtain ⟨d', hd'⟩ := Option.isSome_iff_exists.1 hknown
      have hid' := Graph.identity_of_find? hd'
    · exact .inl ⟨d', Graph.has_of_find? hd', hid' ▸ harrives', (htold _ d d' hd hd').1.1 hvoid⟩
    · have hmem : d' ∈ later.externals := by
        apply (List.mem_append.1 (Graph.mem_of_find? hd')).resolve_left
        exact fun htype => h.spelled d hexternal d' htype hid'.symm hspells
      exact .inr ⟨d', hmem, hid' ▸ harrives', hid' ▸ hspells⟩
  · rintro id hid ⟨d', hd', harrives, hvoid⟩
    obtain ⟨harrives', hknown⟩ := hback harrives hid
    obtain ⟨d, hd⟩ := Option.isSome_iff_exists.1 hknown
    have hid' := Graph.identity_of_find? hd
    exact ⟨d, Graph.has_of_find? hd, hid' ▸ harrives', (htold _ d d' hd hd').1.2 hvoid⟩

theorem Mute.head {u : Identity} (hstep : dump.graph.Follows (·.referent?) id u)
    (h : dump.Mute u) : dump.Mute id := by
  rcases h with hsilent | ⟨e, he, harrives, hspells⟩
  · exact .inl (hsilent.head hstep)
  · exact .inr ⟨e, he, .head hstep harrives, hspells⟩

namespace Accepted

variable (h : dump.Accepted)
include h

theorem whole : dump.Whole := by
  obtain ⟨defaultName, source, es, hes⟩ := h
  obtain ⟨-, hlink, -⟩ := ofEntries_eq_ok.1 hes
  exact whole_of_link hlink

theorem name_ne_empty {d : Descriptor} (hd : d ∈ dump.types) : d.name ≠ "" := by
  obtain ⟨defaultName, source, es, hes⟩ := h
  obtain ⟨-, hlink, -⟩ := ofEntries_eq_ok.1 hes
  exact (described_of_link hlink hd).1

theorem eq_external {d : Descriptor} (hd : d ∈ dump.externals) : d = external d.identity := by
  obtain ⟨defaultName, source, es, hes⟩ := h
  obtain ⟨-, hlink, -⟩ := ofEntries_eq_ok.1 hes
  exact (link_ok hlink).2.2.external d hd

/-- A type without a name is an external one that spells nothing. -/
theorem mute_of_qualifiedName {d : Descriptor} (hd : dump.graph.Has d)
    (hname : dump.graph.qualifiedName d = "") : dump.Mute d.identity := by
  rcases List.mem_append.1 (Graph.mem_of_find? hd) with htype | hexternal
  · exact absurd (Graph.parts_of_qualifiedName hname).2.2.2 (h.name_ne_empty htype)
  · have hself := h.eq_external hexternal
    rw [hself] at hd hname
    exact .inr ⟨d, hexternal, .refl, spellsNothing_of_qualifiedName h.whole.closed hd hname⟩

/-- No external type is a generic parameter. -/
theorem name_of_isGenericMethodParameter {d : Descriptor} (hd : dump.graph.Has d)
    (hparameter : d.isGenericMethodParameter = true) : d.name ≠ "" := by
  rcases List.mem_append.1 (Graph.mem_of_find? hd) with htype | hexternal
  · exact h.name_ne_empty htype
  · intro hname
    have hkind : d.kind = .genericParameter := by
      simp only [Descriptor.isGenericMethodParameter, Descriptor.isGenericParameter,
        Bool.and_eq_true, beq_iff_eq] at hparameter
      exact hparameter.1
    have hself := h.eq_external hexternal
    rw [hself] at hkind
    have hcls : (external d.identity).kind = .cls := (called_external (by simp [hkind])).kind
    rw [hkind] at hcls
    cases hcls

end Accepted

end Dump

/-! ## §5. What the caches hold -/

/-- What is held of the types of a dump is empty only if the dump leaves the type without a text,
    and is so for silent types. -/
structure Session.Quiet (dump : Dump) (s : Session) : Prop where
  names : ∀ id, dump.graph.Knows id → s.names.held? id = some "" → dump.Mute id
  texts : ∀ id t, dump.graph.Knows id → s.mappings.held? id = some t → t.text = "" → dump.Mute id
  silent : ∀ id t, dump.graph.Silent id → s.mappings.held? id = some t → t.text = ""

namespace Session.Quiet

variable {dump : Dump} {s s' : Session}

theorem start (dump : Dump) : Session.start.Quiet dump where
  names := fun _ _ h => by cases h
  texts := fun _ _ _ h => by cases h
  silent := fun _ _ _ h => by cases h

/-- The invariant looks at nothing but what is held. -/
theorem congr (h : s.Quiet dump) (hnames : ∀ k, s'.names.held? k = s.names.held? k)
    (hmappings : ∀ k, s'.mappings.held? k = s.mappings.held? k) : s'.Quiet dump where
  names := fun id hid hn => h.names id hid (hnames id ▸ hn)
  texts := fun id t hid ht => h.texts id t hid (hmappings id ▸ ht)
  silent := fun id t hid ht => h.silent id t hid (hmappings id ▸ ht)

/-- An empty name may be stored for what has no text. -/
theorem name_store (h : s.Quiet dump) {id : Identity} {name : String}
    (hname : name = "" → dump.graph.Knows id → dump.Mute id) :
    (s.serve (.name (.store id name))).2.Quiet dump where
  names := by
    intro id' hid' hn
    rw [serve, Cache.serve, Cache.held?_store] at hn
    split at hn
    · next heq => exact heq.2 ▸ hname (Option.some.inj hn) (heq.2 ▸ hid')
    · exact h.names id' hid' hn
  texts := h.texts
  silent := h.silent

theorem mapping_store (h : s.Quiet dump) {id : Identity} {t : TypeExpr}
    (htext : t.text = "" → dump.graph.Knows id → dump.Mute id)
    (hsilent : dump.graph.Silent id → t.text = "") :
    (s.serve (.mapping (.store id t))).2.Quiet dump where
  names := h.names
  texts := by
    intro id' t' hid' ht'
    rw [serve, Cache.serve, Cache.held?_store] at ht'
    split at ht'
    · next heq =>
      obtain ⟨-, rfl⟩ := heq
      rw [← Option.some.inj ht']
      exact fun hempty => htext hempty hid'
    · exact h.texts id' t' hid' ht'
  silent := by
    intro id' t' hid' ht'
    rw [serve, Cache.serve, Cache.held?_store] at ht'
    split at ht'
    · next heq =>
      obtain ⟨-, rfl⟩ := heq
      rw [← Option.some.inj ht']
      exact hsilent hid'
    · exact h.silent id' t' hid' ht'

end Session.Quiet

/-- What is held of the types of some dumps is as it should be. -/
def Session.AllQuiet (dumps : List Dump) (s : Session) : Prop :=
  ∀ dump ∈ dumps, s.Quiet dump

theorem Session.AllQuiet.congr {dumps : List Dump} {s s' : Session} (h : s.AllQuiet dumps)
    (hnames : ∀ k, s'.names.held? k = s.names.held? k)
    (hmappings : ∀ k, s'.mappings.held? k = s.mappings.held? k) : s'.AllQuiet dumps :=
  fun dump hdump => (h dump hdump).congr hnames hmappings

/-! ### The mapper -/

namespace Dump

/-- What a mapping of a type has to show: an empty text is that of a mute type; and a silent type
    has no text, unless it falls back on the frame of a type that it is passed on to. -/
structure Shows (dump : Dump) (stack : List Identity) (id : Identity) (t : TypeExpr)
    (low : Fallback) : Prop where
  mute : dump.graph.Knows id → t.text = "" → dump.Mute id
  silent : dump.graph.Silent id → t.text = "" ∨ ∃ w ∈ stack,
    dump.graph.Arrives (·.referent?) id w ∧ low = some (stack.reverse.idxOf w)

/-- A type is mapped by passing another one on. -/
theorem Shows.passed_on {dump : Dump} {stack : List Identity} {id u : Identity} {t : TypeExpr}
    {low : Fallback} (hclosed : dump.graph.Closed)
    (hstep : dump.graph.Follows (·.referent?) id u) (h : dump.Shows (id :: stack) u t low) :
    dump.Shows stack id t low where
  mute := by
    intro _ htext
    have hknown : dump.graph.Knows u :=
      hclosed.knows_of_follows (fun d u => d.mem_links_of_referent?) hstep
    exact (h.mute hknown htext).head hstep
  silent := by
    intro hsilent
    have hu : dump.graph.Silent u := by
      obtain ⟨d, hd, hvoid | ⟨u', hu', hsilent'⟩⟩ := hsilent.cases
      · have hpassed := (Graph.follows_iff hd).1 hstep
        rw [Descriptor.referent?, if_neg fun hkind => by rw [hvoid] at hkind; cases hkind.1]
          at hpassed
        cases hpassed
      · exact hstep.unique ⟨d, hd, hu'⟩ ▸ hsilent'
    apply (h.silent hu).imp_right
    rintro ⟨w, hw, harrives, hlow⟩
    -- The way does not come back to the type itself, as it ends.
    have hne : w ≠ id := by
      rintro rfl
      exact hsilent.runsOut.not_circles ⟨w, .refl, .head' hstep harrives⟩
    have hmem : w ∈ stack := (List.mem_cons.1 hw).resolve_left hne
    refine ⟨w, hmem, .head hstep harrives, ?_⟩
    rw [hlow, List.reverse_cons, List.idxOf_append, if_pos (List.mem_reverse.2 hmem)]

section

variable {dump : Dump} {dumps : List Dump} {o : Options}
  (hconcur : ∀ later ∈ dumps, dump.Concurs later) (hmem : dump ∈ dumps)
include hconcur hmem

/-- A frame keeps an expression only if no fall-back was on it or below it. -/
theorem frame_quiet {stack : List Identity} {id : Identity} (hid : dump.graph.Knows id)
    {x : Walk TypeExpr} {s : Session}
    (hx : x.Meets (Session.AllQuiet dumps) (fun t low _ => dump.Shows stack id t low) s) :
    (Walk.frame stack.length id x).Meets (Session.AllQuiet dumps)
      (fun t low _ => dump.Shows stack id t low) s := by
  refine Action.Meets.bind (Action.Meets.imp hx ?_)
  rintro ⟨t, low⟩ s₁ - - ht
  change dump.Shows stack id t low at ht
  cases low with
  | some f =>
    refine Action.Meets.pure fun _ _ _ => ⟨ht.mute, fun hsilent => ?_⟩
    apply (ht.silent hsilent).imp_right
    rintro ⟨w, hw, harrives, hlow⟩
    -- The frame fallen back on is one of those below, so this is passed on.
    have hlt : stack.reverse.idxOf w < stack.length := by
      have hlt := List.idxOf_lt_length_iff.2 (List.mem_reverse.2 hw)
      rwa [List.length_reverse] at hlt
    refine ⟨w, hw, harrives, ?_⟩
    rw [← Option.some.inj hlow] at hlt
    show (if f < stack.length then some f else none) = _
    rw [if_pos hlt, hlow]
  | none =>
    have htext : dump.graph.Silent id → t.text = "" := by
      intro hsilent
      apply (ht.silent hsilent).resolve_right
      rintro ⟨w, -, -, hlow⟩
      cases hlow
    show Walk.Meets (Session.AllQuiet dumps) (fun t low _ => dump.Shows stack id t low)
      (Walk.ofAction (Action.request (.mapping (.store id t)))) s₁
    refine Walk.Meets.ofAction (Action.Meets.request fun s₂ _ h₂ => ?_)
    have hstore : (s₂.serve (.mapping (.store id t))).2.AllQuiet dumps := by
      intro later hlater
      apply (h₂ later hlater).mapping_store
      · intro hempty hknown
        exact (hconcur later hlater).mute id hid hknown (ht.mute hid hempty)
      · intro hsilent
        exact htext ((hconcur later hlater).silent id hid hsilent)
    -- The answer is what is held, which may be another worker's.
    have hheld := s₂.mappings.store_answer id t
    exact ⟨hstore, fun _ _ _ =>
      { mute := fun hknown => (hstore dump hmem).texts id _ hknown hheld
        silent := fun hsilent => .inl ((hstore dump hmem).silent id _ hsilent hheld) }⟩

variable (haccepted : dump.Accepted)
include haccepted

theorem resolve_quiet {d : Descriptor} (hd : dump.graph.Has d) (s : Session) :
    (resolve dump.graph d).Meets (Session.AllQuiet dumps)
      (fun name _ => name = "" → dump.Mute d.identity) s := by
  have hknown : dump.graph.Knows d.identity := Option.isSome_of_eq_some hd
  refine Action.Meets.bind (Action.Meets.request fun s₁ _ h₁ => ?_)
  refine ⟨h₁.congr (fun k => s₁.names.held?_get _ k) fun _ => rfl, fun s₂ _ _ => ?_⟩
  rw [Session.serve_name_get]
  cases hheld : s₁.names.held? d.identity with
  | some name =>
    refine Action.Meets.pure fun _ _ _ hempty => ?_
    exact (h₁ dump hmem).names d.identity hknown (hempty ▸ hheld)
  | none =>
    refine Action.Meets.bind (Action.Meets.request fun s₃ _ h₃ => ?_)
    refine ⟨h₃.congr (fun _ => rfl) fun _ => rfl, fun s₄ _ _ => ?_⟩
    refine Action.Meets.request fun s₅ _ h₅ => ?_
    have hstore : (s₅.serve (.name (.store d.identity (dump.graph.qualifiedName d)))).2.AllQuiet
        dumps := by
      intro later hlater
      apply (h₅ later hlater).name_store
      intro hempty hknown'
      exact (hconcur later hlater).mute _ hknown hknown'
        (haccepted.mute_of_qualifiedName hd hempty)
    have hanswer := s₅.names.store_answer d.identity (dump.graph.qualifiedName d)
    refine ⟨hstore, fun _ _ _ hempty => ?_⟩
    exact (hstore dump hmem).names d.identity hknown (hanswer.trans (congrArg some hempty))

/-- What is computed for a type that is put on the stack, where the types behind it show what they
    have to. -/
theorem compute_quiet {stack : List Identity} {id : Identity} {d : Descriptor}
    {map : Identity → Walk TypeExpr} (hd : dump.graph.find? id = some d)
    (hmap : ∀ u s, (map u).Meets (Session.AllQuiet dumps)
      (fun t low _ => dump.Shows (id :: stack) u t low) s) (s : Session) :
    (Surroundings.compute
      { graph := dump.graph
        options := o
        resolve := fun d => Walk.ofAction (resolve dump.graph d)
        map } d).Meets (Session.AllQuiet dumps) (fun t low _ => dump.Shows stack id t low) s := by
  have hid := Graph.identity_of_find? hd
  have hhas : dump.graph.Has d := Graph.has_of_find? hd
  by_cases hvoid : d.kind = .void
  · -- A void type has no text.
    rw [Surroundings.compute, if_pos hvoid]
    refine Walk.Meets.pure fun _ _ _ => ⟨fun _ _ => .inl ?_, fun _ => .inl rfl⟩
    exact ⟨d, hhas, hid ▸ .refl, hvoid⟩
  cases hreferent : d.referent? with
  | some u =>
    -- A by-reference type has the text of what it passes on.
    rw [Surroundings.compute_of_referent? hreferent]
    apply Walk.Meets.imp (hmap u s)
    intro t low s' _ _ ht
    exact ht.passed_on haccepted.whole.closed ⟨d, hd, hreferent⟩
  | none =>
    -- Any other type lacks a text only for want of a name, and is not silent.
    have hname : ∀ s, (Walk.ofAction (resolve dump.graph d)).Meets (Session.AllQuiet dumps)
        (fun name _ _ => name = "" → dump.Mute d.identity) s :=
      fun s => Walk.Meets.ofAction (resolve_quiet hconcur hmem haccepted hhas s)
    have hsounds : ¬dump.graph.Silent id := by
      intro hsilent
      obtain ⟨d', hd', hcase⟩ := hsilent.cases
      obtain rfl : d = d' := Option.some.inj (hd.symm.trans hd')
      apply hcase.elim hvoid
      rintro ⟨u, hu, -⟩
      rw [hreferent] at hu
      cases hu
    have hcompute := Surroundings.yields_compute_text
      (e := { graph := dump.graph, options := o,
              resolve := fun d => Walk.ofAction (resolve dump.graph d), map })
      (fun u s => (hmap u s).imp fun _ _ _ _ _ _ => trivial) hname hvoid hreferent
      (haccepted.name_of_isGenericMethodParameter hhas)
    apply Walk.Meets.imp (hcompute s)
    intro t low s' _ _ ht
    exact ⟨fun _ hempty => hid ▸ ht hempty, fun hsilent => absurd hsilent hsounds⟩

/-- On any stack, whatever others store in between, a mapping shows what it has to. -/
theorem mapOn_quiet (stack : List Identity) (id : Identity) (s : Session) :
    (mapOn dump.graph o stack id).Meets (Session.AllQuiet dumps)
      (fun t low _ => dump.Shows stack id t low) s := by
  -- By induction on the number of types of the graph that are not on the stack.
  induction hsize : dump.graph.unseen stack using Nat.strongRecOn generalizing stack id s with
  | ind n ih =>
  have htoken : Lua.userdata ≠ "" := by decide
  rw [mapOn]
  refine Walk.Meets.bind (Walk.Meets.ofAction (Action.Meets.request fun s₁ _ h₁ => ?_))
  refine ⟨h₁.congr (fun _ => rfl) fun k => s₁.mappings.held?_get id k, fun s₂ _ _ => ?_⟩
  rw [Session.serve_mapping_get]
  cases hheld : s₁.mappings.held? id with
  | some t =>
    refine Walk.Meets.pure fun _ _ _ => ⟨fun hknown => ?_, fun hsilent => ?_⟩
    · exact (h₁ dump hmem).texts id t hknown hheld
    · exact .inl ((h₁ dump hmem).silent id t hsilent hheld)
  | none =>
    dsimp only
    split
    · next hstack =>
      -- The type falls back on its own frame.
      refine Walk.Meets.bind (Walk.Meets.ofAction (Action.Meets.request fun s₃ _ h₃ => ?_))
      refine ⟨h₃.congr (fun _ => rfl) fun _ => rfl, fun s₄ _ _ => ?_⟩
      refine Action.Meets.pure fun _ _ _ => ⟨fun _ h => absurd h htoken, fun _ => ?_⟩
      exact .inr ⟨id, hstack, .refl, rfl⟩
    · next hn =>
      split
      · next hd =>
        -- A type that the graph does not have is neither known nor silent.
        refine Walk.Meets.pure fun _ _ _ => ⟨fun _ h => absurd h htoken, fun hsilent => ?_⟩
        have hknown := hsilent.knows
        rw [Graph.Knows, hd] at hknown
        cases hknown
      · next d hd =>
        apply frame_quiet hconcur hmem (Option.isSome_of_eq_some hd)
        apply compute_quiet hconcur hmem haccepted hd
        intro u s
        exact ih _ (hsize ▸ Graph.unseen_cons_lt hd hn) (id :: stack) u s rfl

end

end Dump

/-! ## §6. Sessions -/

namespace Dump

variable {dump : Dump} {dumps : List Dump} {o : Options}

theorem mapType_quiet (hconcur : ∀ later ∈ dumps, dump.Concurs later) (hmem : dump ∈ dumps)
    (haccepted : dump.Accepted) (id : Identity) (s : Session) :
    (mapType dump.graph o id).Meets (Session.AllQuiet dumps)
      (fun t _ => (dump.graph.Knows id → t.text = "" → dump.Mute id) ∧
        (dump.graph.Silent id → t.text = "")) s := by
  have hmap : (mapOn dump.graph o [] id).Meets (Session.AllQuiet dumps) _ s :=
    mapOn_quiet hconcur hmem haccepted [] id s
  refine Action.Meets.map (f := fun r : TypeExpr × Fallback => r.1) (Action.Meets.imp hmap ?_)
  rintro ⟨t, low⟩ s' - - ht
  refine ⟨ht.mute, fun hsilent => ?_⟩
  -- There is no frame to fall back on.
  apply (ht.silent hsilent).resolve_right
  rintro ⟨w, hw, -⟩
  cases hw

/-- Work on one dump after another leaves the caches as they should be for those still to come. -/
theorem allQuiet_of_reachable {later : List Dump} {graphs : List Graph} {s : Session}
    (h : s.Reachable o graphs) {earlier : List Dump} (hgraphs : graphs = earlier.map Dump.graph)
    (haccepted : ∀ dump ∈ earlier, dump.Accepted)
    (hconcur : (earlier ++ later).Pairwise Concurs) : s.AllQuiet later := by
  induction h generalizing earlier later with
  | new => exact fun dump _ => .start dump
  | logged log _ ih =>
    exact (ih hgraphs haccepted hconcur).congr (fun _ => rfl) fun _ => rfl
  | @work graphs s g queues p _ hchores hsteps ih =>
    obtain ⟨before, last, rfl, hbefore, hlast⟩ := List.map_eq_append_iff.1 hgraphs.symm
    obtain ⟨dump, rfl, rfl⟩ := List.map_eq_singleton_iff.1 hlast
    rw [List.append_assoc, List.singleton_append] at hconcur
    -- Before, the caches were as they should be for this dump as well.
    have hs : s.AllQuiet (dump :: later) :=
      ih hbefore.symm (fun d hd => haccepted d (List.mem_append_left _ hd)) hconcur
    have hlater := (List.pairwise_cons.1 (List.pairwise_append.1 hconcur).2.1).1
    have hall : ∀ d ∈ dump :: later, dump.Concurs d :=
      List.forall_mem_cons.2 ⟨.refl dump, hlater⟩
    have hdump : dump.Accepted := haccepted dump (by simp)
    let T := Trait.keeping (Session.AllQuiet (dump :: later))
    have hmap : ∀ id, T.Of (mapType dump.graph o id) := fun id s =>
      (mapType_quiet hall List.mem_cons_self hdump id s).imp fun _ _ _ _ _ => trivial
    have hT : T.Serves dump.graph o := Trait.serves_of_mapType
      (fun hd s => (resolve_quiet hall List.mem_cons_self hdump hd s).imp fun _ _ _ _ _ => trivial)
      hmap fun _ _ _ _ => Action.Meets.request fun _ _ h =>
        ⟨h.congr (fun _ => rfl) fun _ => rfl, fun _ _ _ => trivial⟩
    have hp : p.session.AllQuiet (dump :: later) := by
      apply Pool.keeps_of_chores hsteps hs
      intro queue hqueue c hc
      exact Chore.of_serves hT hmap (hchores queue hqueue c hc)
    exact fun d hd => hp d (List.mem_cons_of_mem _ hd)

theorem returnLines_eq_nil {text : String} : Stub.returnLines text = [] ↔ text = "" := by
  unfold Stub.returnLines
  split
  · next h => exact iff_of_true rfl h
  · next h => exact iff_of_false (by simp) h

/-- At any moment of any work on accepted dumps that concur, a silent type of the last of them is
    mapped to nothing.  Any other type is mapped to some text, and a method that returns it gets a
    line for it, unless the type is one that spells nothing. -/
theorem mapType_silent (haccepted : dump.Accepted) (o : Options) {earlier : List Dump}
    (hearlier : ∀ d ∈ earlier, d.Accepted) (hconcur : (earlier ++ [dump]).Pairwise Concurs)
    {s : Session} (hs : s.Reachable o (earlier.map Dump.graph)) :
    (∀ id, dump.graph.Silent id → ((mapType dump.graph o id).run s).1.text = "") ∧
    (∀ id, dump.graph.Knows id → ((mapType dump.graph o id).run s).1.text = "" →
      dump.graph.Silent id ∨ dump.Unspelled id) ∧
    ∀ result : Option Identity,
      let lines := Stub.returnLines
        ((returnText (typeText dump.graph o false) result).run s).1
      ((∀ id ∈ result, dump.graph.Silent id) → lines = []) ∧
        ((∀ id ∈ result, dump.graph.Knows id) → lines = [] →
          ∀ id ∈ result, dump.graph.Silent id ∨ dump.Unspelled id) := by
  have hquiet : s.AllQuiet [dump] := allQuiet_of_reachable hs rfl hearlier hconcur
  have hself : ∀ d ∈ [dump], dump.Concurs d := by
    intro d hd
    rw [List.mem_singleton.1 hd]
    exact .refl dump
  have hmapped := fun id =>
    ((mapType_quiet (o := o) hself (List.mem_singleton_self dump) haccepted id s).run hquiet).2
  refine ⟨fun id => (hmapped id).2, fun id => (hmapped id).1, fun result => ?_⟩
  cases result with
  | none => exact ⟨fun _ => rfl, fun _ _ id hid => by cases hid⟩
  | some id =>
    have hlines : Stub.returnLines ((typeText dump.graph o false id).run s).1 = [] ↔
        ((mapType dump.graph o id).run s).1.text = "" := by
      rw [returnLines_eq_nil, typeText, Action.run_bind]
      rfl
    constructor
    · intro hall
      exact hlines.2 ((hmapped id).2 (hall id rfl))
    · intro hknown hnil id' hid'
      cases hid'
      exact (hmapped id).1 (hknown id rfl) (hlines.1 hnil)

/-- A dump with a method that returns void by reference. -/
def bellEntries : Entries :=
  [(.str "types", .list [
    .map [(.str "id", .str "Shop.Bell"), (.str "methods", .list [
      .map [(.str "name", .str "ring"), (.str "return_type", .str "System.Void&")]])]])]

/-- A second one, whose method takes what returns it. -/
def gongEntries : Entries :=
  [(.str "types", .list [
    .map [(.str "id", .str "Shop.Gong"), (.str "methods", .list [
      .map [(.str "name", .str "strike"), (.str "return_type", .str "System.Void&")]])]])]

/-- The way from a by-reference type to void, as it is read off two descriptors. -/
theorem silent_of_referent? {g : Graph} {t u : Identity}
    (ht : (g.find? t).bind (·.referent?) = some u)
    (hu : (g.find? u).map (·.kind) = some .void) : g.Silent t := by
  obtain ⟨d, hd, hreferent⟩ := Option.bind_eq_some_iff.1 ht
  obtain ⟨e, he, hvoid⟩ := Option.map_eq_some_iff.1 hu
  refine ⟨e, Graph.has_of_find? he, .single ⟨d, hd, ?_⟩, hvoid⟩
  rw [Graph.identity_of_find? he]
  exact hreferent

/-- Once one dump has been worked on, the same type is mapped to nothing for another one. -/
theorem bellEntries_silent : ∃ dump later, ofEntries "Shop" none bellEntries = .ok dump ∧
    ofEntries "Shop" none gongEntries = .ok later ∧ [dump, later].Pairwise Concurs ∧
    let s := Session.start.after dump.graph {} [.map "System.Void&"]
    s.Reachable {} [dump.graph] ∧ s.mappings.held? "System.Void&" ≠ none ∧
    later.graph.Silent "System.Void&" ∧
    ((mapType later.graph {} "System.Void&").run s).1.text = "" ∧
    Stub.returnLines ((returnText (typeText later.graph {} false) (some "System.Void&")).run s).1
      = [] := by
  have hfacts : ((ofEntries "Shop" none bellEntries).toOption.bind fun dump =>
      (ofEntries "Shop" none gongEntries).toOption.map fun later =>
        (decide (dump.Alike later),
          ((Session.start.after dump.graph {} [.map "System.Void&"]).mappings.held?
            "System.Void&").isSome,
          (later.graph.find? "System.Void&").bind (·.referent?),
          (later.graph.find? "System.Void").map (·.kind)))
      = some (true, true, some "System.Void", some .void) := by decide +kernel
  obtain ⟨dump, hdump, hfacts⟩ := Option.bind_eq_some_iff.1 hfacts
  obtain ⟨later, hlater, hfacts⟩ := Option.map_eq_some_iff.1 hfacts
  rw [toOption_eq_some_iff] at hdump hlater
  simp only [Prod.mk.injEq, decide_eq_true_eq] at hfacts
  obtain ⟨halike, hheld, hreferent, hvoid⟩ := hfacts
  let s := Session.start.after dump.graph {} [.map "System.Void&"]
  have hs : s.Reachable {} [dump.graph] := .of_chores (by simp [Chore.Within])
  have hfirst : dump.Accepted := ⟨_, _, _, hdump⟩
  have hsecond : later.Accepted := ⟨_, _, _, hlater⟩
  have hconcur : [dump, later].Pairwise Concurs := by
    simpa using halike.concurs hfirst.whole hsecond.whole
  have hearlier : ∀ d ∈ [dump], d.Accepted := by simpa using hfirst
  have hsilent := silent_of_referent? hreferent hvoid
  obtain ⟨htext, -, hlines⟩ := mapType_silent hsecond {} hearlier hconcur hs
  refine ⟨dump, later, hdump, hlater, hconcur, hs, Option.isSome_iff_ne_none.1 hheld, hsilent,
    htext _ hsilent, ?_⟩
  refine (hlines _).1 fun id hid => ?_
  cases hid
  exact hsilent

/-- A dump that describes a type with a token as one that passes void on, and refers to a type by a
    point. -/
def awryEntries : Entries :=
  [(.str "types", .list [
    .map [(.str "id", .str "System.Int32"), (.str "kind", .str "byref"),
      (.str "element_type", .str "void")],
    .map [(.str "id", .str "Shop.Till"), (.str "base_type", .str ".")]])]

/-- A dump that describes a coin as void, and one that describes it as a class. -/
def coinEntries : Entries :=
  [(.str "types", .list [
    .map [(.str "id", .str "Shop.Coin"), (.str "kind", .str "void")]])]

def mintEntries : Entries :=
  [(.str "types", .list [.map [(.str "id", .str "Shop.Coin")]])]

/-- By-reference types lead from a type to void, and it is mapped to a token; a class is mapped to
    nothing; and so is one that an earlier dump has as void, and no line is written for it. -/
theorem awryEntries_text :
    (∃ dump d e c, ofEntries "Shop" none awryEntries = .ok dump ∧
      dump.graph.find? "System.Int32" = some d ∧ d.kind = .byRef ∧ d.element = some e.identity ∧
      dump.graph.Has e ∧ e.kind = .void ∧
      ((mapType dump.graph {} "System.Int32").run .start).1.text = "integer" ∧
      dump.graph.find? "." = some c ∧ c.kind = .cls ∧
      ((mapType dump.graph {} ".").run .start).1.text = "") ∧
    ∃ earlier later d, ofEntries "Shop" none coinEntries = .ok earlier ∧
      ofEntries "Shop" none mintEntries = .ok later ∧
      later.graph.find? "Shop.Coin" = some d ∧ d.kind = .cls ∧
      let s := Session.start.after earlier.graph {} [.map "Shop.Coin"]
      s.Reachable {} [earlier.graph] ∧
      ((mapType later.graph {} "Shop.Coin").run s).1.text = "" ∧
      Stub.returnLines ((returnText (typeText later.graph {} false) (some "Shop.Coin")).run s).1
        = [] := by
  constructor
  · have hfacts : (ofEntries "Shop" none awryEntries).toOption.map (fun dump =>
        ((dump.graph.find? "System.Int32").map (fun d => (d.kind, d.element)),
          (dump.graph.find? "void").map (·.kind), (dump.graph.find? ".").map (·.kind),
          ((mapType dump.graph {} "System.Int32").run .start).1.text,
          ((mapType dump.graph {} ".").run .start).1.text))
        = some (some (.byRef, some "void"), some .void, some .cls, "integer", "") := by
      decide +kernel
    obtain ⟨dump, hdump, hfacts⟩ := Option.map_eq_some_iff.1 hfacts
    rw [toOption_eq_some_iff] at hdump
    simp only [Prod.mk.injEq, Option.map_eq_some_iff] at hfacts
    obtain ⟨⟨d, hd, hbyRef, helement⟩, ⟨e, he, hvoid⟩, ⟨c, hc, hcls⟩, htoken, hnothing⟩ := hfacts
    refine ⟨dump, d, e, c, hdump, hd, hbyRef, ?_, Graph.has_of_find? he, hvoid, htoken, hc, hcls,
      hnothing⟩
    rw [helement, Graph.identity_of_find? he]
  · have hfacts : ((ofEntries "Shop" none coinEntries).toOption.bind fun earlier =>
        (ofEntries "Shop" none mintEntries).toOption.map fun later =>
          let s := Session.start.after earlier.graph {} [.map "Shop.Coin"]
          ((later.graph.find? "Shop.Coin").map (·.kind),
            ((mapType later.graph {} "Shop.Coin").run s).1.text,
            Stub.returnLines
              ((returnText (typeText later.graph {} false) (some "Shop.Coin")).run s).1))
        = some (some .cls, "", []) := by decide +kernel
    obtain ⟨earlier, hearlier, hfacts⟩ := Option.bind_eq_some_iff.1 hfacts
    obtain ⟨later, hlater, hfacts⟩ := Option.map_eq_some_iff.1 hfacts
    rw [toOption_eq_some_iff] at hearlier hlater
    simp only [Prod.mk.injEq, Option.map_eq_some_iff] at hfacts
    obtain ⟨⟨d, hd, hcls⟩, hnothing, hlines⟩ := hfacts
    refine ⟨earlier, later, d, hearlier, hlater, hd, hcls, ?_, hnothing, hlines⟩
    exact .of_chores (by simp [Chore.Within])

end Dump

end EmmyStubs
