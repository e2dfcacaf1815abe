import EmmyStubs.Proofs.History
import EmmyStubs.Proofs.Loading
import EmmyStubs.Proofs.Selecting
import EmmyStubs.Proofs.Turns
import EmmyStubs.Proofs.Groups

/-! # Graphs that agree

    The caches are asked for identities alone, so a dump may find in them what an earlier one
    has left for types of the same identities:

    * **`Graph.Agrees`**: of the types of both, a graph gives the names and the expressions that
      another one gives, as far as a mapping may be kept.
    * **`Session.Undisturbed`**: names and expressions come out of a session as out of a new one,
      and no type is kept that lies on a cycle.  The sessions that hold nothing wrong are just
      those (`faithful_iff`).
    * **`agrees_iff`**: a graph agrees with another one exactly when nothing that is done with it
      disturbs the other.
    * **`Turn.of_faithful`**: a turn that finds nothing wrong about its types selects and
      declares as on a new session.
-/

namespace EmmyStubs

variable {g g' : Graph} {o : Options}

/-! ## §1. Agreement -/

/-- What is kept of the types of `g` is right about the types of `g'`. -/
structure Graph.Agrees (o : Options) (g g' : Graph) : Prop where
  names : ∀ d d', g.Has d → g'.Has d' → d.identity = d'.identity →
    g.qualifiedName d = g'.qualifiedName d'
  acyclic : ∀ t, g.Knows t → g'.Knows t → ¬g.Cyclic o t → ¬g'.Cyclic o t
  values : ∀ t, g.Knows t → g'.Knows t → ¬g.Cyclic o t → g.expr o t = g'.expr o t

namespace Session

variable {s s' s'' : Session}

theorem Untouched.trans (h : Untouched g s s') (h' : Untouched g s' s'') : Untouched g s s'' :=
  ⟨fun t ht => (h'.names t ht).trans (h.names t ht),
    fun t ht => (h'.mappings t ht).trans (h.mappings t ht)⟩

/-- Work on `g` leaves nothing wrong about `g'`. -/
theorem Faithful.of_agrees (h : s.Faithful g' o) (hs' : s'.Faithful g o)
    (hunt : Untouched g s s') (hagrees : g.Agrees o g') : s'.Faithful g' o where
  names := by
    intro d' name hd' hname
    -- A name of a type of `g` is the one that `g` gives; any other was there before.
    by_cases hknows : g.Knows d'.identity
    · obtain ⟨d, hd⟩ := Option.isSome_iff_exists.1 hknows
      have hid := Graph.identity_of_find? hd
      have hown := hs'.names d name (Graph.has_of_find? hd) (hid ▸ hname)
      exact hown.trans (hagrees.names d d' (Graph.has_of_find? hd) hd' hid)
    · exact h.names d' name hd' (hunt.names _ hknows ▸ hname)
  acyclic := by
    intro t e ht he
    by_cases hknows : g.Knows t
    · exact hagrees.acyclic t hknows ht (hs'.acyclic t e hknows he)
    · exact h.acyclic t e ht (hunt.mappings _ hknows ▸ he)
  value := by
    intro t e ht he
    by_cases hknows : g.Knows t
    · have hcyc := hs'.acyclic t e hknows he
      exact (hs'.value t e hknows he).trans (hagrees.values t hknows ht hcyc)
    · exact h.value t e ht (hunt.mappings _ hknows ▸ he)

end Session

/-! ### What shows of a session -/

/-- A name that is held is answered, right or wrong. -/
theorem resolve_of_held {d : Descriptor} {s : Session} {name : String}
    (h : s.names.held? d.identity = some name) : ((resolve g d).run s).1 = name := by
  have hget : ((Action.request (.name (.get d.identity))).run s).1 = some name :=
    (Session.serve_name_get s d.identity).trans h
  unfold resolve
  rw [Action.run_bind, hget]
  rfl

/-- So is an expression. -/
theorem mapType_of_held {t : Identity} {s : Session} {e : TypeExpr}
    (h : s.mappings.held? t = some e) : ((mapType g o t).run s).1 = e := by
  have hget : (s.serve (.mapping (.get t))).1 = some e := (Session.serve_mapping_get s t).trans h
  unfold mapType
  rw [mapOn]
  simp only [bind, Walk.ofAction, Action.bind, Action.request, Action.run, hget]
  rfl

/-- Names and expressions of the types of `g` come out as if nothing had been done before, and no
    type on a cycle is kept. -/
structure Session.Undisturbed (g : Graph) (o : Options) (s : Session) : Prop where
  names : ∀ d, g.Has d → ((resolve g d).run s).1 = g.qualifiedName d
  exprs : ∀ t, g.Knows t → ((mapType g o t).run s).1 = g.expr o t
  acyclic : ∀ t, g.Knows t → g.Cyclic o t → s.mappings.held? t = none

/-- Whatever a session holds wrong shows, and nothing else does. -/
theorem Session.faithful_iff (hg : g.Closed) {s : Session} :
    s.Faithful g o ↔ s.Undisturbed g o := by
  constructor
  · intro h
    have hvalid : Session.Valid g o s False (fun _ => True) s := h.valid
    refine ⟨fun d hd => ?_, fun t ht => ?_, fun t ht hcyc => ?_⟩
    · exact ((resolve_meets hd).run hvalid).2
    · -- From a type of the graph, dependencies do not lead out of it.
      have hscope : ¬False → ∀ u, g.Leads o t u → g.Knows u := by
        intro _ u hu
        rcases Relation.ReflTransGen.cases_tail hu with rfl | ⟨v, -, hv⟩
        · exact ht
        · exact hg u (Graph.linked_of_depends hv)
      have hmap : (mapType g o t).Meets (Session.Valid g o s False fun _ => True) _ s :=
        mapType_meets ⟨t, trivial, .refl⟩ hscope s
      exact (hmap.run hvalid).2.1
    · rw [← Option.not_isSome_iff_eq_none]
      intro hsome
      obtain ⟨e, he⟩ := Option.isSome_iff_exists.1 hsome
      exact h.acyclic t e ht he hcyc
  · intro h
    refine ⟨fun d name hd hname => ?_, fun t e ht he hcyc => ?_, fun t e ht he => ?_⟩
    · exact (resolve_of_held hname).symm.trans (h.names d hd)
    · have hnone := h.acyclic t ht hcyc
      rw [he] at hnone
      exact absurd hnone (by simp)
    · exact (mapType_of_held he).symm.trans (h.exprs t ht)

/-! ### Work on a graph -/

/-- Names are given and then types are mapped, on a new session. -/
def worked (g : Graph) (o : Options) (named : List Descriptor) (mapped : List Identity) :
    Session :=
  ((mapAll g o mapped).run ((Members.resolveAll g named).run Session.start).2).2

theorem resolveAll_meets {roots : Identity → Prop} {before s : Session} {ds : List Descriptor}
    (h : ∀ d ∈ ds, g.Has d) :
    (Members.resolveAll g ds).Meets (Session.Valid g o before True roots) (fun _ _ => True) s := by
  induction ds generalizing s with
  | nil => exact Action.Meets.pure fun _ _ _ => trivial
  | cons d ds ih =>
    refine Action.Meets.bind ((resolve_meets (h d List.mem_cons_self)).imp fun _ s₁ _ _ _ => ?_)
    have hrest := ih (s := s₁) fun e he => h e (List.mem_cons_of_mem d he)
    exact Action.Meets.bind (hrest.imp fun _ _ _ _ _ => Action.Meets.pure fun _ _ _ => trivial)

theorem valid_worked (o : Options) (named : List Descriptor) (mapped : List Identity)
    (hnamed : ∀ d ∈ named, g.Has d) :
    Session.Valid g o .start True (· ∈ mapped) (worked g o named mapped) ∧
      (worked g o named mapped).Complete g o (· ∈ mapped) := by
  have hnames : (Members.resolveAll g named).Meets (Session.Valid g o .start True (· ∈ mapped)) _
      Session.start := resolveAll_meets hnamed
  obtain ⟨hvalid, -⟩ := hnames.run Session.valid_start
  obtain ⟨hvalid', -, hcomplete⟩ := (mapAll_meets (fun _ hid => hid) _).run hvalid
  exact ⟨hvalid', hcomplete⟩

/-- A graph agrees with another one exactly when no work on it leaves anything behind that is
    wrong about the other. -/
theorem agrees_iff_faithful : g.Agrees o g' ↔ ∀ named mapped, (∀ d ∈ named, g.Has d) →
    (worked g o named mapped).Faithful g' o := by
  constructor
  · intro hagrees named mapped hnamed
    obtain ⟨hvalid, -⟩ := valid_worked o named mapped hnamed
    exact Session.faithful_start.of_agrees hvalid.faithful hvalid.untouched hagrees
  · intro hworked
    -- Mapping a single type on no cycle leaves its expression in the cache.
    have hheld : ∀ t, g.Knows t → ¬g.Cyclic o t →
        (worked g o [] [t]).mappings.held? t = some (g.expr o t) := by
      intro t ht hcyc
      obtain ⟨hvalid, hcomplete⟩ := valid_worked (g := g) o [] [t] (by simp)
      exact (hvalid.held?_iff hcomplete t _).2 ⟨ht, ⟨t, by simp, .refl⟩, hcyc, rfl⟩
    refine ⟨fun d d' hd hd' hid => ?_, fun t ht ht' hcyc => ?_, fun t ht ht' hcyc => ?_⟩
    · have hfaithful := hworked [d] [] (by simpa using hd)
      have hnames : (worked g o [d] []).names
          = ((Cache.empty.miss).store d.identity (g.qualifiedName d)).2 := rfl
      refine hfaithful.names d' _ hd' ?_
      rw [hnames, ← hid, Cache.held?_store]
      simp
    · exact (hworked [] [t] (by simp)).acyclic t _ ht' (hheld t ht hcyc)
    · exact (hworked [] [t] (by simp)).value t _ ht' (hheld t ht hcyc)

/-- A graph agrees with another one exactly when no work on it disturbs the other. -/
theorem agrees_iff (hg' : g'.Closed) : g.Agrees o g' ↔ ∀ named mapped, (∀ d ∈ named, g.Has d) →
    (worked g o named mapped).Undisturbed g' o := by
  rw [agrees_iff_faithful]
  simp only [Session.faithful_iff hg']

/-- Two graphs agree if the types of both depend on nothing, and have one name and expression. -/
theorem Graph.Agrees.of_leaves (h : ∀ d d', g.Has d → g'.Has d' → d.identity = d'.identity →
    g.qualifiedName d = g'.qualifiedName d' ∧ g'.dependencies o d' = [] ∧
    g.expr o d.identity = g'.expr o d.identity) : g.Agrees o g' := by
  have hboth : ∀ t, g.Knows t → g'.Knows t → g.expr o t = g'.expr o t ∧ ¬g'.Cyclic o t := by
    intro t ht ht'
    obtain ⟨d, hd⟩ := Option.isSome_iff_exists.1 ht
    obtain ⟨d', hd'⟩ := Option.isSome_iff_exists.1 ht'
    have hid := identity_of_find? hd
    obtain ⟨-, hleaf, hexpr⟩ := h d d' (has_of_find? hd) (has_of_find? hd')
      (hid.trans (identity_of_find? hd').symm)
    refine ⟨hid ▸ hexpr, fun hcyc => ?_⟩
    obtain ⟨u, hu, -⟩ := Relation.TransGen.head'_iff.1 hcyc
    simpa [hleaf] using mem_of_depends hd' hu
  exact
    { names := fun d d' hd hd' hid => (h d d' hd hd' hid).1
      acyclic := fun t ht ht' _ => (hboth t ht ht').2
      values := fun t ht ht' _ => (hboth t ht ht').1 }

/-! ## §2. Turns -/

namespace Turn

variable {turn : Turn}

/-- What is selected from a dump and how it is declared when no other dump was read. -/
def alone (o : Options) (assembly : Settings.Assembly) (dump : Dump) :
    List Descriptor × List GroupResult :=
  let selected := ((Selection.select dump.graph dump.types assembly.filters).run .start).1
  (selected,
    ((renderAll dump.graph o (some dump.name) (groupBySpace selected)).run .start).1)

theorem mem_of_mem_groups :
    ∀ grp ∈ groupBySpace turn.selected, ∀ d ∈ grp.types, d ∈ turn.dump.types := by
  intro grp hgrp d hd
  have hselected : d ∈ turn.selected :=
    (groupBySpace_grouped turn.selected).all.mem_iff.1 (List.mem_flatMap.2 ⟨grp, hgrp, hd⟩)
  exact Selection.mem_of_mem_select hselected

theorem has_of_mem_groups (hdump : turn.dump.Whole) :
    ∀ grp ∈ groupBySpace turn.selected, ∀ d ∈ grp.types, turn.dump.graph.Has d :=
  fun grp hgrp d hd => hdump.has d (mem_of_mem_groups grp hgrp d hd)

/-- A turn whose session holds nothing wrong about its dump selects and declares as if no other
    dump had been read, and leaves nothing wrong behind. -/
theorem of_faithful (turn : Turn) (hdump : turn.dump.Whole)
    (hs : turn.before.session.Faithful turn.dump.graph o) :
    (turn.selected, turn.results o) = alone o turn.assembly turn.dump ∧
      (turn.translation o).2.Faithful turn.dump.graph o ∧
      Session.Untouched turn.dump.graph turn.before.session (turn.translation o).2 := by
  have hselect : Determined turn.dump.graph o
      (Selection.select turn.dump.graph turn.dump.types turn.assembly.filters) :=
    Selection.select_determined hdump.has
  obtain ⟨hselected, hsession, huntouched⟩ := hselect.run hdump.closed hs
  have hrender : Determined turn.dump.graph o
      (renderAll turn.dump.graph o (some turn.dump.name) (groupBySpace turn.selected)) :=
    renderAll_determined (has_of_mem_groups hdump)
  -- The selection has left the session faithful, so the translation finds nothing wrong either.
  obtain ⟨hresults, hsession', huntouched'⟩ := hrender.run hdump.closed hsession
  have hselected : turn.selected = (alone o turn.assembly turn.dump).1 := hselected
  refine ⟨Prod.ext hselected ?_, hsession', huntouched.trans huntouched'⟩
  refine hresults.trans ?_
  rw [hselected]
  rfl

end Turn

theorem Run.SameCaches.faithful {w w' : World} (h : SameCaches w w')
    (hw : w.session.Faithful g o) : w'.session.Faithful g o :=
  hw.congr (fun _ => by rw [h.names]) fun _ => by rw [h.mappings]

end EmmyStubs
