import EmmyStubs.Proofs.Agreement
import EmmyStubs.Proofs.Workers

/-! # Sessions that a run comes to

    One session serves all dumps of a run, one after the other, and any workers on the dump that
    is at hand.

    * **`Chore`**: a piece of work on a graph: a name, a mapping, a selection, a translation.
    * **`Session.Reachable`**: what a session may be when some graphs were worked on in turn; the
      last of them may be worked on still.
    * **`Reachable.keeps`**: what all chores keep is true of every such session.
    * **`Graph.Accords`**: earlier graphs leave nothing wrong about a graph.  Then the session is
      valid for it (`Reachable.exists_valid`).
    * **`Run.Course.reachable`**: the sessions of a run are reachable.
-/

namespace EmmyStubs

variable {g : Graph} {o : Options}

/-! ## §1. Chores -/

/-- A piece of work on a session. -/
inductive Chore where
  | name (d : Descriptor)
  | map (id : Identity)
  | select (types : List Descriptor) (filters : List String)
  | translate (assembly : Option String) (grp : Group)

/-- Keeping an invariant, whatever others do, is a trait of actions. -/
def Trait.keeping (Inv : Session → Prop) : Trait Action where
  Of x := ∀ s, x.Meets Inv (fun _ _ => True) s
  pure _ _ := Action.Meets.pure fun _ _ _ => trivial
  bind hx hf s := Action.Meets.bind ((hx s).imp fun a s' _ _ _ => hf a s')

/-- Where all types are mapped with a trait, so are their texts made. -/
theorem Trait.serves_of_mapType {T : Trait Action}
    (hname : ∀ {d : Descriptor}, g.Has d → T.Of (resolve g d))
    (hmap : ∀ id, T.Of (mapType g o id))
    (hreport : ∀ level source message, T.Of (Action.report level source message)) :
    T.Serves g o where
  resolve := hname
  typeText := fun _ => T.map (hmap _) _
  report := hreport

namespace Chore

def action (g : Graph) (o : Options) : Chore → Action Unit
  | name d => resolve g d >>= fun _ => return ()
  | map id => mapType g o id >>= fun _ => return ()
  | select types filters => Selection.select g types filters >>= fun _ => return ()
  | translate assembly grp => renderGroup g o assembly grp >>= fun _ => return ()

/-- The descriptors that are worked on are those of the graph; any identity may be mapped. -/
def Within (g : Graph) : Chore → Prop
  | name d => g.Has d
  | map _ => True
  | select types _ => ∀ d ∈ types, g.Has d
  | translate _ grp => ∀ d ∈ grp.types, g.Has d

/-- A chore has the traits of its requests. -/
theorem of_serves {T : Trait Action} (hT : T.Serves g o) (hmap : ∀ id, T.Of (mapType g o id))
    {c : Chore} (hc : c.Within g) : T.Of (c.action g o) := by
  cases c with
  | name d => exact T.map (hT.resolve hc) _
  | map id => exact T.map (hmap id) _
  | select types filters => exact T.map (hT.select hc) _
  | translate assembly grp => exact T.map (hT.renderGroup hc) _

end Chore

section

variable {counted : Prop} {before : Session}

/-- A type that is in no graph may be held as another graph has left it, and nothing is added. -/
theorem mapType_meets_of_unknown {id : Identity} (hid : g.find? id = none) (s : Session) :
    (mapType g o id).Meets (Session.Valid g o before counted fun _ => True)
      (fun _ _ => True) s := by
  have hmap : (mapOn g o [] id).Meets (Session.Valid g o before counted fun _ => True)
      (fun _ _ _ => True) s := by
    rw [mapOn]
    refine Walk.Meets.bind (Walk.Meets.ofAction (Action.Meets.request fun s₁ _ h₁ => ?_))
    refine ⟨h₁.mapping_get id, fun s₂ _ _ => ?_⟩
    cases (s₁.serve (.mapping (.get id))).1 with
    | some t => exact Walk.Meets.pure fun _ _ _ => trivial
    | none =>
      dsimp only
      split
      · next hmem => exact absurd hmem List.not_mem_nil
      · split
        · exact Walk.Meets.pure fun _ _ _ => trivial
        · next d hd => exact absurd (hid.symm.trans hd) (by simp)
  exact Action.Meets.map (f := fun r : TypeExpr × Fallback => r.1) hmap

/-- Mapping any type keeps a session valid.  If the session is shared with other graphs, that takes
    a closed graph: then the types of the graph depend on types of the graph. -/
theorem mapType_keeps (hg : ¬counted → g.Closed) (id : Identity) (s : Session) :
    (mapType g o id).Meets (Session.Valid g o before counted fun _ => True)
      (fun _ _ => True) s := by
  cases hid : g.find? id with
  | none => exact mapType_meets_of_unknown hid s
  | some d =>
    have hknows : g.Knows id := Option.isSome_of_eq_some hid
    have hscope : ¬counted → ∀ t, g.Leads o id t → g.Knows t := by
      intro hc t ht
      rcases Relation.ReflTransGen.cases_tail ht with rfl | ⟨u, -, hu⟩
      · exact hknows
      · exact hg hc t (Graph.linked_of_depends hu)
    have hmap : (mapType g o id).Meets (Session.Valid g o before counted fun _ => True) _ s :=
      mapType_meets ⟨id, trivial, .refl⟩ hscope s
    exact hmap.imp fun _ _ _ _ _ => trivial

/-- Work on a graph keeps a session valid. -/
theorem Chore.meets (hg : ¬counted → g.Closed) {c : Chore} (hc : c.Within g) (s : Session) :
    (c.action g o).Meets (Session.Valid g o before counted fun _ => True) (fun _ _ => True) s := by
  let T := Trait.keeping (Session.Valid g o before counted fun _ => True)
  have hT : T.Serves g o := Trait.serves_of_mapType
    (fun hd _ => (resolve_meets hd).imp fun _ _ _ _ _ => trivial)
    (mapType_keeps hg) fun _ _ _ _ => report_meets fun _ _ _ => trivial
  exact Chore.of_serves hT (mapType_keeps hg) hc s

end

/-! ## §2. Reachable sessions -/

/-- Some workers about to work on a graph, on a session that others have left. -/
def Pool.ofChores (g : Graph) (o : Options) (s : Session) (queues : List (List Chore)) :
    Pool Unit :=
  ⟨queues.map fun queue => queue.map fun c => ⟨0, c.action g o⟩, s, []⟩

/-- The session when some graphs were worked on in turn, and at any moment of the work on the last
    of them. -/
inductive Session.Reachable (o : Options) : List Graph → Session → Prop
  | new : Reachable o [] .start
  | logged {graphs : List Graph} {s : Session} (log : List Log.Entry) (h : Reachable o graphs s) :
      Reachable o graphs { s with log }
  | work {graphs : List Graph} {s : Session} {g : Graph} {queues : List (List Chore)}
      {p : Pool Unit} (h : Reachable o graphs s)
      (hchores : ∀ queue ∈ queues, ∀ c ∈ queue, Chore.Within g c)
      (hsteps : (Pool.ofChores g o s queues).Steps p) : Reachable o (graphs ++ [g]) p.session

/-- Workers keep what each of their chores keeps. -/
theorem Pool.keeps_of_chores {Inv : Session → Prop} {s : Session} {queues : List (List Chore)}
    {p : Pool Unit} (hsteps : (Pool.ofChores g o s queues).Steps p) (hs : Inv s)
    (hwork : ∀ queue ∈ queues, ∀ c ∈ queue, ∀ s,
      (Chore.action g o c).Meets Inv (fun _ _ => True) s) : Inv p.session := by
  have hstart : (Pool.ofChores g o s queues).Sound Inv (fun _ _ _ => True) := by
    refine ⟨hs, fun tasks htasks t ht => ?_, fun r hr => absurd hr (by simp [Pool.ofChores])⟩
    obtain ⟨queue, hqueue, rfl⟩ := List.mem_map.1 htasks
    obtain ⟨c, hc, rfl⟩ := List.mem_map.1 ht
    exact hwork queue hqueue c hc _
  exact (hsteps.sound hstart).session

/-- A worker may be left alone with a task until its result is put down. -/
theorem Pool.steps_run {α : Type} (i : Nat) (x : Action α) (queue : List (Task α)) (s : Session)
    (results : List (Nat × α)) :
    Pool.Steps ⟨[⟨i, x⟩ :: queue], s, results⟩
      ⟨[queue], (x.run s).2, (i, (x.run s).1) :: results⟩ := by
  induction x generalizing s with
  | done a => exact .single (.putDown [] [] queue i a s results)
  | ask r next ih => exact .head (.serve [] [] queue i r next s results) (ih _ _)

/-- The session that some chores leave, one after the other. -/
def Session.after (g : Graph) (o : Options) (chores : List Chore) (s : Session) : Session :=
  chores.foldl (fun s c => ((c.action g o).run s).2) s

theorem Session.after_cons (c : Chore) (chores : List Chore) (s : Session) :
    s.after g o (c :: chores) = ((c.action g o).run s).2.after g o chores := rfl

namespace Session.Reachable

variable {graphs : List Graph} {s : Session}

/-- What chores leave behind on a reachable session is reachable. -/
theorem after (h : s.Reachable o graphs) {chores : List Chore}
    (hchores : ∀ c ∈ chores, c.Within g) : (s.after g o chores).Reachable o (graphs ++ [g]) := by
  -- By induction on the chores still to come, whatever has been put down.
  have hsteps : ∀ (chores : List Chore) (s : Session) (results : List (Nat × Unit)),
      ∃ p, Pool.Steps ⟨[chores.map fun c => ⟨0, c.action g o⟩], s, results⟩ p ∧
        p.session = s.after g o chores := by
    intro chores
    induction chores with
    | nil => exact fun s results => ⟨_, .refl, rfl⟩
    | cons c chores ih =>
      intro s results
      obtain ⟨p, hp, hsession⟩ :=
        ih ((c.action g o).run s).2 ((0, ((c.action g o).run s).1) :: results)
      exact ⟨p, (Pool.steps_run 0 (c.action g o) _ s results).trans hp, hsession⟩
  obtain ⟨p, hp, hsession⟩ := hsteps chores s []
  rw [← hsession]
  have hall : ∀ queue ∈ [chores], ∀ c ∈ queue, c.Within g := by simpa using hchores
  exact h.work hall hp

/-- On a new session. -/
theorem of_chores {chores : List Chore} (hchores : ∀ c ∈ chores, c.Within g) :
    (start.after g o chores).Reachable o [g] :=
  Reachable.new.after hchores

/-- No graph need be worked on. -/
theorem idle (h : s.Reachable o graphs) (more : List Graph) : s.Reachable o (graphs ++ more) := by
  induction more generalizing graphs with
  | nil => simpa using h
  | cons g more ih =>
    have hnext : (s.after g o []).Reachable o (graphs ++ [g]) := h.after (by simp)
    simpa using ih hnext

/-- Only the caches count. -/
theorem of_caches {t : Session} (h : s.Reachable o graphs) (hnames : t.names = s.names)
    (hmappings : t.mappings = s.mappings) : t.Reachable o graphs := by
  have hsession : t = { s with log := t.log } := by rw [← hnames, ← hmappings]
  rw [hsession]
  exact h.logged t.log

/-- What is true of a new session, and kept by all chores, is true of every reachable one. -/
theorem keeps {Inv : Session → Prop} (h : s.Reachable o graphs) (hstart : Inv start)
    (hlog : ∀ (s : Session) log, Inv s → Inv { s with log })
    (hwork : ∀ g ∈ graphs, ∀ c, Chore.Within g c → ∀ s,
      (c.action g o).Meets Inv (fun _ _ => True) s) : Inv s := by
  induction h with
  | new => exact hstart
  | logged log _ ih => exact hlog _ log (ih hwork)
  | @work graphs s g queues p _ hchores hsteps ih =>
    have hs : Inv s := ih fun g' hg' => hwork g' (List.mem_append_left _ hg')
    apply Pool.keeps_of_chores hsteps hs
    intro queue hqueue c hc
    exact hwork g (by simp) c (hchores queue hqueue c hc)

/-! ## §3. Earlier graphs -/

/-- Work on one closed graph after another leaves nothing wrong about a closed graph with which
    they agree. -/
theorem faithful (h : s.Reachable o graphs) (hclosed : ∀ g' ∈ graphs ++ [g], g'.Closed)
    (hagree : (graphs ++ [g]).Pairwise (Graph.Agrees o)) : s.Faithful g o := by
  induction h generalizing g with
  | new => exact faithful_start
  | logged log _ ih => exact (ih hclosed hagree).congr (fun _ => rfl) fun _ => rfl
  | @work graphs s g' queues p _ hchores hsteps ih =>
    obtain ⟨hearlier, -, hlast⟩ := List.pairwise_append.1 hagree
    have hagrees : g'.Agrees o g := hlast g' (by simp) g (by simp)
    have hclosed' : ∀ g'' ∈ graphs ++ [g'], g''.Closed := by
      intro g'' hg''
      exact hclosed g'' (List.mem_append_left _ hg'')
    -- Nothing was wrong about either graph before.
    have hs' : s.Faithful g' o := ih hclosed' hearlier
    have hs : s.Faithful g o := by
      apply ih
      · intro g'' hg''
        apply hclosed
        simp only [List.mem_append, List.mem_singleton] at hg'' ⊢
        tauto
      · refine List.Pairwise.sublist ?_ hagree
        simp
    have hvalid : Valid g' o s False (fun _ => True) p.session := by
      apply Pool.keeps_of_chores hsteps hs'.valid
      intro queue hqueue c hc
      exact Chore.meets (fun _ => hclosed' g' (by simp)) (hchores queue hqueue c hc)
    exact hs.of_agrees hvalid.faithful hvalid.untouched hagrees

end Session.Reachable

/-- Some graphs that were worked on earlier leave nothing wrong about `g`: they are all `g` itself;
    or all of them are closed, and each agrees with those after it. -/
def Graph.Accords (o : Options) (graphs : List Graph) (g : Graph) : Prop :=
  (∀ g' ∈ graphs, g' = g) ∨
    (∀ g' ∈ graphs ++ [g], g'.Closed) ∧ (graphs ++ [g]).Pairwise (Graph.Agrees o)

theorem Graph.Accords.self : g.Accords o [g] :=
  .inl fun _ => List.mem_singleton.1

/-- A session on which only such graphs were worked on is valid for `g`. -/
theorem Session.Reachable.exists_valid {graphs : List Graph} {s : Session}
    (h : s.Reachable o graphs) (hg : g.Accords o graphs) :
    ∃ before counted, (¬counted → g.Closed) ∧ Valid g o before counted (fun _ => True) s := by
  rcases hg with hown | ⟨hclosed, hagree⟩
  · refine ⟨start, True, fun hc => absurd trivial hc, ?_⟩
    apply h.keeps valid_start
    · intro s log hs
      exact hs.congr (fun _ => rfl) fun _ => rfl
    · intro g' hg' c hc
      rw [hown g' hg'] at hc ⊢
      exact Chore.meets (fun hc => absurd trivial hc) hc
  · exact ⟨s, False, fun _ => hclosed g (by simp), (h.faithful hclosed hagree).valid⟩

/-! ## §4. Runs -/

/-- The session of a turn stays reachable. -/
theorem Turn.reachable {graphs : List Graph} (turn : Turn) (hdump : turn.dump.Whole)
    (h : turn.before.session.Reachable o graphs) :
    (turn.translation o).2.Reachable o (graphs ++ [turn.dump.graph]) := by
  -- A turn selects types and then translates one group after the other.
  have htranslate : ∀ (groups : List Group) (s : Session),
      ((renderAll turn.dump.graph o (some turn.dump.name) groups).run s).2 =
        s.after turn.dump.graph o (groups.map (.translate (some turn.dump.name))) := by
    intro groups
    induction groups with
    | nil => exact fun _ => rfl
    | cons grp rest ih =>
      intro s
      unfold renderAll
      simp only [Action.run_bind, Action.pure_eq_done, Action.run_done, List.map_cons,
        Session.after_cons, Chore.action, ih]
  have hall : ∀ c ∈ Chore.select turn.dump.types turn.assembly.filters ::
      (groupBySpace turn.selected).map (.translate (some turn.dump.name)),
      c.Within turn.dump.graph := by
    intro c hc
    rcases List.mem_cons.1 hc with rfl | hc
    · exact hdump.has
    · obtain ⟨grp, hgrp, rfl⟩ := List.mem_map.1 hc
      exact Turn.has_of_mem_groups hdump grp hgrp
  have hsession : (turn.translation o).2 = turn.before.session.after turn.dump.graph o
      (.select turn.dump.types turn.assembly.filters ::
        (groupBySpace turn.selected).map (.translate (some turn.dump.name))) := by
    rw [Session.after_cons, Chore.action, Action.run_bind]
    exact htranslate _ _
  rw [hsession]
  exact h.after hall

namespace Run

/-- At each turn of a course the session is one that the dumps before it have left. -/
theorem Course.reachable {load : Loader} {s : Settings} {output : Files.Path} {w w' : World}
    {as : List Settings.Assembly} {turns : List Turn} {graphs : List Graph}
    (h : Course load s output w as turns w') (hw : w.logFile = none)
    (hwhole : ∀ turn ∈ turns, turn.dump.Whole) (hs : w.session.Reachable s.options graphs) :
    (∀ before turn after, turns = before ++ turn :: after →
      turn.before.session.Reachable s.options (graphs ++ before.map (·.dump.graph))) ∧
    w'.session.Reachable s.options (graphs ++ turns.map (·.dump.graph)) := by
  induction h generalizing graphs with
  | nil w => exact ⟨by simp, by simpa using hs⟩
  | skipped hopen _ ih =>
    obtain ⟨hcaches, -, -⟩ := openDump_ok hopen hw
    exact ih hcaches.logFile hwhole (hs.of_caches hcaches.names hcaches.mappings)
  | @taken w w₁ w₂ w' a rest turns dump made hopen hmade _ ih =>
    obtain ⟨hcaches, -, -⟩ := openDump_ok hopen hw
    have hturn := generateDump_ok hmade hcaches.logFile
    have hopened : w₁.session.Reachable s.options graphs :=
      hs.of_caches hcaches.names hcaches.mappings
    have hmade : w₂.session.Reachable s.options (graphs ++ [dump.graph]) := by
      have hlast := Turn.reachable ⟨a, dump, w₁⟩ (hwhole _ List.mem_cons_self) hopened
      exact hlast.of_caches hturn.names hturn.mappings
    obtain ⟨hlater, hend⟩ :=
      ih hturn.logFile (fun turn hmem => hwhole turn (List.mem_cons_of_mem _ hmem)) hmade
    refine ⟨fun before turn after hsplit => ?_, by simpa using hend⟩
    cases before with
    | nil =>
      obtain ⟨rfl, -⟩ := List.cons.inj hsplit
      simpa using hopened
    | cons first before =>
      obtain ⟨rfl, hrest⟩ := List.cons.inj hsplit
      simpa using hlater before turn after hrest

end Run

end EmmyStubs
