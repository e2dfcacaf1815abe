import EmmyStubs.Proofs.Requests
import EmmyStubs.Proofs.Slots
import EmmyStubs.Run.Generate

/-! # What types are called on a shared session

    The cache of names is asked for identities alone.  As long as what it holds is right, types
    are selected and declared under their own names, whatever else was done before:

    * **`Graph.NamesAlike`**: what a graph calls a type is right for another graph, as far as it
      is about certain types.
    * **`Session.Calls`**: the names that a session holds for certain types are right.  Work on a
      graph keeps them right for every graph whose types it names alike (`Calls.serve`), and so
      does work on several such graphs (`Calls.of_reachable`).
    * **`Selection.chosen`**: what is selected, told without a session (`select_calls`).
    * **`Graph.Declares`**: a type is declared under its qualified name, unless it is faulty.  So
      are all types of all groups (`renderAll_calls`).
-/

namespace EmmyStubs

variable {α β : Type} {g g' : Graph} {o : Options} {s : Session} {own : List Descriptor}

/-! ## §1. Names that are right -/

/-- If a graph has one of the types `own` of another graph, it gives it the qualified name that the
    other one gives it. -/
def Graph.NamesAlike (g g' : Graph) (own : List Descriptor) : Prop :=
  ∀ d d', g.Has d → d' ∈ own → d.identity = d'.identity → g.qualifiedName d = g'.qualifiedName d'

theorem Graph.namesAlike_self (h : ∀ d ∈ own, g.Has d) : g.NamesAlike g own := by
  intro d d' hd hd' hid
  -- A graph has one type of an identity.
  have hsame : some d = some d' := hd.symm.trans ((congrArg g.find? hid).trans (h d' hd'))
  rw [Option.some.inj hsame]

/-- Whether it does, type by type. -/
def Graph.namesAlike? (g g' : Graph) (own : List Descriptor) : Bool :=
  g.descriptors.all fun d => own.all fun d' =>
    d.identity != d'.identity || g.qualifiedName d == g'.qualifiedName d'

theorem Graph.namesAlike_of_all (h : g.namesAlike? g' own = true) : g.NamesAlike g' own := by
  intro d d' hd hd' hid
  have hall := List.all_eq_true.1 (List.all_eq_true.1 h d (mem_of_find? hd)) d' hd'
  simpa [hid] using hall

/-- The names that the session holds for the types `own` of the graph are theirs. -/
def Session.Calls (g : Graph) (own : List Descriptor) (s : Session) : Prop :=
  ∀ d name, d ∈ own → s.names.held? d.identity = some name → name = g.qualifiedName d

namespace Session.Calls

theorem start : Session.start.Calls g own :=
  fun _ _ _ h => by cases h

theorem congr {t : Session} (hnames : t.names = s.names) (h : s.Calls g own) : t.Calls g own :=
  fun d name hd hname => h d name hd (hnames ▸ hname)

/-- A request of a translation of `g` leaves nothing wrong about types that it names alike. -/
theorem serve (hg : g.NamesAlike g' own) {sources : Log.Source → Prop} (r : Request) (s : Session)
    (hr : r.Translates g sources) (hs : s.Calls g' own) : (s.serve r).2.Calls g' own := by
  cases r with
  | mapping r => exact hs
  | report e => exact hs
  | name r =>
    intro d' name hd' hname
    cases r with
    | get key => exact hs d' name hd' ((Cache.held?_get s.names key d'.identity).symm.trans hname)
    | miss => exact hs d' name hd' hname
    | store key value =>
      obtain ⟨d, hd, rfl, rfl⟩ := hr
      have hname : (s.names.store d.identity (g.qualifiedName d)).2.held? d'.identity
        = some name := hname
      rw [Cache.held?_store] at hname
      split at hname
      · next hnew => exact Option.some.inj hname ▸ hg d d' hd hd' hnew.2.symm
      · exact hs d' name hd' hname

/-- Translating types of `g` keeps the names of these right, whatever the others do. -/
theorem meets (hg : g.NamesAlike g' own) {sources : Log.Source → Prop} {x : Action α}
    (h : x.Asks (Request.Translates g sources)) (s : Session) :
    x.Meets (Session.Calls g' own) (fun _ _ => True) s :=
  h.meets (serve hg) s

/-- So does any work on graphs that name them alike, one after the other. -/
theorem of_reachable {graphs : List Graph} (h : s.Reachable o graphs)
    (hgraphs : ∀ g ∈ graphs, g.NamesAlike g' own) : s.Calls g' own := by
  apply h.keeps start
  · exact fun s log hs => hs.congr rfl
  · intro g hg c hc
    have hasks : (c.action g o).Asks (Request.Translates g fun _ => True) :=
      Chore.of_serves Action.Asks.serves (mapType_asks trivial) hc
    exact Session.Calls.meets (hgraphs g hg) hasks

end Session.Calls

/-- A translation that nobody interrupts keeps them right too. -/
theorem Action.Asks.run_calls {sources : Log.Source → Prop} {x : Action α}
    (h : x.Asks (Request.Translates g sources)) (hg : g.NamesAlike g' own) (hs : s.Calls g' own) :
    (x.run s).2.Calls g' own :=
  ((Session.Calls.meets hg h s).run hs).1

/-- After an action with one result only that result matters. -/
theorem Action.Meets.bind_eq {Inv : Session → Prop} {x : Action α} {f : α → Action β} {a : α}
    {Q : β → Session → Prop} (hx : x.Meets Inv (fun b _ => b = a) s)
    (hf : ∀ s, (f a).Meets Inv Q s) : (x >>= f).Meets Inv Q s :=
  Action.Meets.bind (hx.imp fun _ s₁ _ _ hb => hb ▸ hf s₁)

theorem resolveTypes_asks {sources : Log.Source → Prop} {ds : List Descriptor}
    (h : ∀ d ∈ ds, g.Has d) : (Run.resolveTypes g ds).Asks (Request.Translates g sources) := by
  induction ds with
  | nil => exact trivial
  | cons d ds ih =>
    refine Action.Asks.bind (resolve_asks (h d List.mem_cons_self)) fun _ => ?_
    exact Action.Asks.bind (ih fun e he => h e (List.mem_cons_of_mem d he)) fun _ => trivial

section

variable (hown : ∀ d ∈ own, g.Has d)
include hown

/-- After any translation the names of types of its own graph are still right. -/
theorem Action.Asks.calls {sources : Log.Source → Prop} {x : Action α} {f : α → Action β}
    {Q : β → Session → Prop} (h : x.Asks (Request.Translates g sources))
    (hf : ∀ a s, (f a).Meets (Session.Calls g own) Q s) (s : Session) :
    (x >>= f).Meets (Session.Calls g own) Q s := by
  have hx := Session.Calls.meets (Graph.namesAlike_self hown) h s
  exact Action.Meets.bind (hx.imp fun a s₁ _ _ _ => hf a s₁)

theorem resolve_calls {d : Descriptor} (hd : d ∈ own) (s : Session) :
    (resolve g d).Meets (Session.Calls g own) (fun name _ => name = g.qualifiedName d) s := by
  have hserve : ∀ r s, Request.Translates g (fun _ => True) r → Session.Calls g own s →
      (s.serve r).2.Calls g own := Session.Calls.serve (Graph.namesAlike_self hown)
  refine Action.Meets.bind (Action.Meets.request fun s₁ _ h₁ => ⟨hserve _ s₁ trivial h₁, ?_⟩)
  intro s₂ _ _
  rw [Session.serve_name_get]
  cases hheld : s₁.names.held? d.identity with
  | some name => exact Action.Meets.pure fun _ _ _ => h₁ d name hd hheld
  | none =>
    refine Action.Meets.bind (Action.Meets.request fun s₃ _ h₃ => ?_)
    refine ⟨hserve _ s₃ trivial h₃, fun s₄ _ _ => Action.Meets.request fun s₅ _ h₅ => ?_⟩
    -- The answer is what is held then, be it ours or not.
    have hstore := hserve (.name (.store d.identity (g.qualifiedName d))) s₅
      ⟨d, hown d hd, rfl, rfl⟩ h₅
    exact ⟨hstore, fun _ _ _ => hstore d _ hd (s₅.names.store_answer _ _)⟩

/-- The names of several types. -/
theorem resolveTypes_calls {ds : List Descriptor} (h : ∀ d ∈ ds, d ∈ own) (s : Session) :
    (Run.resolveTypes g ds).Meets (Session.Calls g own)
      (fun names _ => names = ds.map g.qualifiedName) s := by
  induction ds generalizing s with
  | nil => exact Action.Meets.pure fun _ _ _ => rfl
  | cons d ds ih =>
    have hrest := ih fun e he => h e (List.mem_cons_of_mem d he)
    refine (resolve_calls hown (h d List.mem_cons_self) s).bind_eq fun s₁ => ?_
    exact (hrest s₁).bind_eq fun _ => Action.Meets.pure fun _ _ _ => rfl

end

/-! ## §2. Selections -/

namespace Selection

/-- The types that may be declared and that some filter selects by identity or by qualified
    name. -/
def chosen (g : Graph) (types : List Descriptor) (filters : List String) : List Descriptor :=
  types.filter fun d => isCandidate g d &&
    (filters.contains everything || filters.any (hits d.identity (g.qualifiedName d)))

theorem mem_distinctFilters {f : String} {fs : List String} :
    f ∈ distinctFilters fs ↔ f ∈ fs := by
  induction fs with
  | nil => simp [distinctFilters]
  | cons e fs ih =>
    by_cases h : f = e
    · simp [distinctFilters, h]
    · simp [distinctFilters, h, ih]

section

variable (hown : ∀ d ∈ own, g.Has d)
include hown

theorem normaliseFilters_calls (filters : List String) (s : Session) :
    (normaliseFilters filters).Meets (Session.Calls g own)
      (fun active _ => active = distinctFilters filters) s := by
  have hserves := Action.Asks.serves (g := g) (o := {})
  unfold normaliseFilters
  dsimp only
  split
  · refine (hserves.report _ _ _).calls hown (fun _ => ?_) s
    refine (hserves.reportEach _).calls hown fun _ => ?_
    exact (hserves.report _ _ _).calls hown fun _ _ => Action.Meets.pure fun _ _ _ => rfl
  · exact Action.Meets.pure fun _ _ _ => rfl

theorem hitTypes_calls {filters : List String} {ds : List Descriptor} (h : ∀ d ∈ ds, d ∈ own)
    (s : Session) :
    (hitTypes g filters ds).Meets (Session.Calls g own) (fun hit _ =>
      hit = ds.filter fun d => filters.any (hits d.identity (g.qualifiedName d))) s := by
  induction ds generalizing s with
  | nil => exact Action.Meets.pure fun _ _ _ => rfl
  | cons d ds ih =>
    have hrest := ih fun e he => h e (List.mem_cons_of_mem d he)
    refine (resolve_calls hown (h d List.mem_cons_self) s).bind_eq fun s₁ => ?_
    refine (hrest s₁).bind_eq fun _ => Action.Meets.pure fun _ _ _ => ?_
    rw [List.filter_cons]

theorem select_calls {filters : List String} (s : Session) :
    (select g own filters).Meets (Session.Calls g own)
      (fun selected _ => selected = chosen g own filters) s := by
  have hcontains : (distinctFilters filters).contains everything = filters.contains everything := by
    rw [Bool.eq_iff_iff, List.contains_iff_mem, List.contains_iff_mem, mem_distinctFilters]
  have hany : ∀ p : String → Bool, (distinctFilters filters).any p = filters.any p := by
    intro p
    rw [Bool.eq_iff_iff, List.any_eq_true, List.any_eq_true]
    simp only [mem_distinctFilters]
  refine (normaliseFilters_calls hown filters s).bind_eq fun s₁ => ?_
  rw [hcontains]
  split
  · next hall =>
    refine Action.Meets.pure fun _ _ _ => List.filter_congr fun d _ => ?_
    rw [hall, Bool.true_or, Bool.and_true]
  · next hall =>
    have hcandidates : ∀ d ∈ own.filter (isCandidate g), d ∈ own :=
      fun d hd => (List.mem_filter.1 hd).1
    refine (hitTypes_calls hown hcandidates s₁).bind_eq fun s₂ => ?_
    have hserves := Action.Asks.serves (g := g) (o := {})
    refine (hserves.report _ _ _).calls hown (fun _ _ => Action.Meets.pure fun _ _ _ => ?_) s₂
    rw [List.filter_filter, chosen]
    refine List.filter_congr fun d _ => ?_
    rw [hany, Bool.eq_false_iff.2 hall, Bool.false_or, Bool.and_comm]

end

end Selection

/-! ## §3. Declarations -/

/-- A slot has a declaration under the qualified name of a type, unless the type is faulty. -/
structure Graph.Declares (g : Graph) (d : Descriptor) (slot : Stub.Rendered) : Prop where
  identity : slot.identity = d.identity
  failed : slot.failed = true ↔ d.fault?.isSome
  name : slot.failed = false → slot.qualifiedName = g.qualifiedName d ∧
    ∃ c : Stub.Declaration, c.name = g.qualifiedName d ∧ c.text? = some slot.text

variable (hown : ∀ d ∈ own, g.Has d)
include hown

section

variable {d : Descriptor} (hd : d ∈ own)
include hd

theorem classDeclaration_calls (s : Session) :
    (classDeclaration g o d).Meets (Session.Calls g own)
      (fun c _ => c.name = g.qualifiedName d) s := by
  have hserves := Action.Asks.serves (g := g) (o := o)
  refine (hserves.baseTypes (hown d hd)).calls hown (fun bases s₁ => ?_) s
  -- The name is asked for last, whatever the members are.
  have hrest : ∀ s, Action.Meets (Session.Calls g own) (fun c _ => c.name = g.qualifiedName d) (do
      let ms ← allMembers g o d (o.flatten || bases.2)
      let name ← resolve g d
      return ({
        name
        baseTypes := bases.1
        fields := ms.fields
        operators := ms.operators
        methods := ms.methods.map .group ++ ms.genericMethods.map .generic
        constructor := ms.constructor } : Stub.ClassDeclaration)) s :=
    (hserves.allMembers (hown d hd)).calls hown fun _ s₂ =>
      Action.Meets.map (resolve_calls hown hd s₂)
  dsimp only
  split
  · exact (hserves.report _ _ _).calls hown (fun _ => hrest) s₁
  · exact hrest s₁

theorem declaration_calls (s : Session) :
    (declaration g o d).Meets (Session.Calls g own) (fun r _ =>
      match r with
      | .ok c => c.name = g.qualifiedName d ∧ ∀ e, printed d c = .error e ↔ d.fault? = some e
      | .error e => d.fault? = some e) s := by
  unfold declaration
  split
  · next henum =>
    split
    · next e he => exact Action.Meets.pure fun _ _ _ => fault?_of_enumMembers_error henum he
    · next members hmembers =>
      have hname := resolve_calls hown hd s
      exact Action.Meets.map (hname.imp fun _ _ _ _ hname =>
        ⟨hname, fun _ => printed_enum_error_iff henum hmembers⟩)
  · next hother =>
    have hclass := classDeclaration_calls (o := o) hown hd s
    exact Action.Meets.map (hclass.imp fun _ _ _ _ hname =>
      ⟨hname, fun _ => printed_cls_error_iff hother⟩)

theorem renderType_calls (s : Session) :
    (renderType g o d).Meets (Session.Calls g own) (fun r _ =>
      match r with
      | .ok slot => g.Declares d slot
      | .error e => d.fault? = some e) s := by
  refine Action.Meets.bind ((declaration_calls hown hd s).imp fun r s₁ _ _ hr => ?_)
  cases r with
  | error e => exact Action.Meets.pure fun _ _ _ => hr
  | ok c =>
    obtain ⟨hname, hfault⟩ := hr
    refine Action.Meets.pure fun _ _ _ => ?_
    cases hprinted : printed d c with
    | error e => exact (hfault e).1 hprinted
    | ok slot =>
      -- What has a text is not faulty.
      have hnone : d.fault? = none := by
        refine Option.eq_none_iff_forall_ne_some.2 fun e he => ?_
        rw [(hfault e).2 he] at hprinted
        cases hprinted
      obtain ⟨text, htext, rfl⟩ := printed_ok hprinted
      exact ⟨rfl, by simp [hnone], fun _ => ⟨hname, c, hname, htext⟩⟩

end

variable {assembly : Option String}

/-- Each type of a list is declared under its name, unless it is faulty. -/
theorem renderTypes_calls {ds : List Descriptor} (h : ∀ d ∈ ds, d ∈ own) (s : Session) :
    (renderTypes g o assembly ds).Meets (Session.Calls g own)
      (fun made _ => List.Forall₂ g.Declares ds made.1) s := by
  induction ds generalizing s with
  | nil => exact Action.Meets.pure fun _ _ _ => .nil
  | cons d ds ih =>
    have hrest := ih fun e he => h e (List.mem_cons_of_mem d he)
    refine Action.Meets.bind ((renderType_calls hown (h d List.mem_cons_self) s).imp ?_)
    intro r s₁ _ _ hr
    cases r with
    | ok slot => exact Action.Meets.map ((hrest s₁).imp fun _ _ _ _ hslots => .cons hr hslots)
    | error e =>
      -- The note in the slot is a failed declaration.
      have hnote : g.Declares d (Failure.rendered e.identity d.space (some e.reason)) :=
        ⟨fault?_identity hr, by simp [Failure.rendered, show d.fault? = some e from hr],
          fun hfailed => by cases hfailed⟩
      have hserves := Action.Asks.serves (g := g) (o := o)
      refine (hserves.report _ _ _).calls hown (fun _ s₂ => ?_) s₁
      exact Action.Meets.map ((hrest s₂).imp fun _ _ _ _ hslots => .cons hnote hslots)

theorem renderAll_calls {groups : List Group} (h : ∀ grp ∈ groups, ∀ d ∈ grp.types, d ∈ own)
    (s : Session) :
    (renderAll g o assembly groups).Meets (Session.Calls g own)
      (fun results _ => List.Forall₂
        (fun grp r => List.Forall₂ g.Declares grp.types r.declarations) groups results) s := by
  induction groups generalizing s with
  | nil => exact Action.Meets.pure fun _ _ _ => .nil
  | cons grp rest ih =>
    have hgroup : (renderGroup g o assembly grp).Meets (Session.Calls g own)
        (fun r _ => List.Forall₂ g.Declares grp.types r.declarations) s :=
      Action.Meets.map (renderTypes_calls hown (h grp List.mem_cons_self) s)
    refine Action.Meets.bind (hgroup.imp fun r s₁ _ _ hr => ?_)
    have hrest := ih (fun grp' hgrp => h grp' (List.mem_cons_of_mem grp hgrp)) s₁
    exact Action.Meets.map (hrest.imp fun _ _ _ _ hrs => .cons hr hrs)

end EmmyStubs
