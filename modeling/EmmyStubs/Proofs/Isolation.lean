import EmmyStubs.Proofs.Completing

/-! # Assemblies that do not influence each other

    A run shares its caches and its files among all assemblies:

    * **`aloneFiles`**: the files of a dump's stubs when no other dump is read.
    * **`Agreeing`**: each dump agrees with those after it, which is so exactly when no work on
      an earlier one changes a name or an expression of a later one.
    * **`Apart`**: no file that a run writes takes the place of another one, of a dump or of a
      template.
    * **`generate_isolated`**: assemblies whose dumps agree and whose files are apart get the
      files that each of them gets in a run of its own.
-/

namespace EmmyStubs

open EmmyStubs.Files

/-! ## §1. Files of one assembly -/

/-- An assembly, and the dump that is at its path. -/
abbrev Source : Type :=
  Settings.Assembly × Dump

section

variable (s : Settings) (output : Path) (tree : Tree)

/-- The files of the stubs of a dump when no other dump is read. -/
def aloneFiles (e : Source) : List (Path × String) :=
  (Turn.alone s.options e.1 e.2).2.map fun r =>
    (Output.namespacePath output e.2.name r.space,
      Output.namespaceText (stubTemplate s tree) e.2.name r.space r.declarations)

/-- The place of each file. -/
def alonePlaces (e : Source) : List Place :=
  Tree.goals tree.cwd (aloneFiles s output tree e)

/-- What keeps some assemblies from influencing each other by way of the caches. -/
def Agreeing (o : Options) (es : List Source) : Prop :=
  es.Pairwise fun e later => e.2.graph.Agrees o later.2.graph

/-- What keeps them from doing so by way of the files. -/
structure Apart (es : List Source) : Prop where
  places : es.Pairwise fun e later =>
    (alonePlaces s output tree e).Disjoint (alonePlaces s output tree later)
  index : ∀ e ∈ es, (Output.indexPath output).goal tree.cwd ∉ alonePlaces s output tree e
  dumps : ∀ e ∈ es, ∀ e' ∈ es, e.1.path.goal tree.cwd ∉ alonePlaces s output tree e'
  template : ∀ t, tree.Grows (fun q => ∃ e ∈ es, q ∈ alonePlaces s output tree e) t →
    stubTemplate s t = stubTemplate s tree

end

/-! ## §2. Reading dumps -/

namespace Dump

variable {tree t : Tree} {p : Path} {dump : Dump}

/-- A dump that is loaded is a file. -/
theorem found_of_load (h : load tree p = .ok (.ok dump)) :
    ∃ text, tree.find p = .ok (p.goal tree.cwd, .file text) := by
  unfold load at h
  split at h
  · next text hread =>
    unfold Tree.read at hread
    cases hfind : tree.find p with
    | error e => rw [hfind] at hread; cases hread
    | ok found =>
      obtain ⟨q, n⟩ := found
      have hq := Tree.locate_eq_goal (Tree.find_eq_ok.1 hfind).1
      rw [hfind] at hread
      cases n with
      | directory => cases hread
      | file old => exact ⟨old, by rw [hq]⟩
  · cases h
  · cases h

/-- Files that are written elsewhere do not matter to what is read of a file. -/
theorem load_of_find {written : Place → Prop} {text : String}
    (hfind : tree.find p = .ok (p.goal tree.cwd, .file text)) (hgrows : tree.Grows written t)
    (hp : ¬written (p.goal tree.cwd)) : t.exists? p = .ok true ∧ load t p = load tree p := by
  have hfind' := hgrows.find hfind hp
  constructor
  · unfold Tree.exists? Tree.holds?
    rw [hfind']
    rfl
  · have hread : t.read p = tree.read p := by
      unfold Tree.read
      rw [hfind, hfind']
    unfold load
    rw [hread]

/-- So a dump that was loaded is loaded again. -/
theorem load_of_grows {written : Place → Prop} (h : load tree p = .ok (.ok dump))
    (hgrows : tree.Grows written t) (hp : ¬written (p.goal tree.cwd)) :
    t.exists? p = .ok true ∧ load t p = .ok (.ok dump) := by
  obtain ⟨text, hfind⟩ := found_of_load h
  obtain ⟨hthere, hload⟩ := load_of_find hfind hgrows hp
  exact ⟨hthere, hload.trans h⟩

end Dump

/-! ## §3. Courses -/

namespace Run

variable {s : Settings} {output : Path} {tree : Tree}

/-- With one template for all files, the files are told by the results. -/
theorem files_of_fileOf {assembly : String} {Reached : Tree → Prop} {rs : List GroupResult}
    {files : List (Path × String)}
    (h : List.Forall₂ (FileOf s output assembly Reached) rs files)
    (ht : ∀ t, Reached t → stubTemplate s t = stubTemplate s tree) :
    files = rs.map fun r => (Output.namespacePath output assembly r.space,
      Output.namespaceText (stubTemplate s tree) assembly r.space r.declarations) := by
  induction h with
  | nil => rfl
  | @cons r file rs files hfile _ ih =>
    obtain ⟨t, hreached, htext⟩ := hfile.text
    have hsteady : Output.templateText t s.templates Output.namespaceTemplateName
        Output.namespaceTemplate = stubTemplate s tree := ht t hreached
    rw [List.map_cons, ← ih]
    exact congrArg (· :: files) (Prod.ext hfile.path (hsteady ▸ htext))

/-- A turn whose session holds nothing wrong about its dump writes the files that the dump has
    alone. -/
theorem Made.writes {written : Place → Prop} {turn : Turn}
    {made : Report × List (Option String)} {w' : World} (h : Made s output turn made w')
    (hdump : turn.dump.Whole)
    (hfaithful : turn.before.session.Faithful turn.dump.graph s.options)
    (hgrows : tree.Grows written turn.before.tree)
    (hplaces : ∀ q ∈ alonePlaces s output tree (turn.assembly, turn.dump), written q)
    (htemplate : ∀ t, tree.Grows written t → stubTemplate s t = stubTemplate s tree) :
    Tree.Writes turn.before.tree (aloneFiles s output tree (turn.assembly, turn.dump)) w'.tree := by
  obtain ⟨files, hwrites, hfiles⟩ := h.written
  -- The turn has the results that its dump has alone, so its files are at the same paths.
  have hresults : turn.results s.options = (Turn.alone s.options turn.assembly turn.dump).2 :=
    congrArg Prod.snd (Turn.of_faithful turn hdump hfaithful).1
  have hpaths : files.map (·.1)
      = (aloneFiles s output tree (turn.assembly, turn.dump)).map (·.1) := by
    rw [map_path_of_fileOf hfiles, hresults, aloneFiles, List.map_map]
    rfl
  have hgoals : Tree.goals turn.before.tree.cwd files
      = alonePlaces s output tree (turn.assembly, turn.dump) := by
    -- Neither place nor path of a file depends on the templates, so the places come first.
    have hmap := congrArg (List.map (Path.goal · tree.cwd)) hpaths
    rw [List.map_map, List.map_map] at hmap
    rw [hgrows.cwd]
    exact hmap
  have hsame : files = aloneFiles s output tree (turn.assembly, turn.dump) := by
    -- Their texts are the same too, as nothing written so far touches the templates.
    rw [aloneFiles, ← hresults]
    refine files_of_fileOf hfiles fun t ht => htemplate t (hgrows.trans (ht.mono fun q hq => ?_))
    exact hplaces q (hgoals ▸ hq)
  exact hsame ▸ hwrites

/-- A dump is opened, if its file is as it was. -/
theorem openDump_of_load {written : Place → Prop} {a : Settings.Assembly} {dump : Dump}
    {d : Option Dump} {w w₁ : World} (hopen : (openDump Dump.load a).outcome w = (.ok d, w₁))
    (hw : w.logFile = none) (hload : Dump.load tree a.path = .ok (.ok dump))
    (hgrows : tree.Grows written w.tree) (hp : ¬written (a.path.goal tree.cwd)) :
    d = some dump := by
  obtain ⟨hthere, hdump⟩ := Dump.load_of_grows hload hgrows hp
  obtain ⟨d', w₂, hopen', rfl, -⟩ := openDump_completes ⟨hw, .refl⟩ hthere hdump
  rw [hopen] at hopen'
  cases hopen'
  rfl

/-- A course over assemblies that are apart selects and declares from each dump as if it were the
    only one, and writes the files of each in turn. -/
theorem Course.apart {w w' : World} {as : List Settings.Assembly} {turns : List Turn}
    {es : List Source} (h : Course Dump.load s output w as turns w') (written : Place → Prop)
    (hw : w.logFile = none) (has : as = es.map (·.1))
    (hload : ∀ e ∈ es, Dump.load tree e.1.path = .ok (.ok e.2))
    (hgrows : tree.Grows written w.tree)
    (hdumps : ∀ e ∈ es, ¬written (e.1.path.goal tree.cwd))
    (hplaces : ∀ e ∈ es, ∀ q ∈ alonePlaces s output tree e, written q)
    (htemplate : ∀ t, tree.Grows written t → stubTemplate s t = stubTemplate s tree)
    (hagree : Agreeing s.options es)
    (hfaithful : ∀ e ∈ es, w.session.Faithful e.2.graph s.options) :
    (turns.map fun turn => (turn.assembly, turn.dump)) = es ∧
      (∀ turn ∈ turns, turn.before.session.Undisturbed turn.dump.graph s.options ∧
        (turn.selected, turn.results s.options) = Turn.alone s.options turn.assembly turn.dump) ∧
      Tree.Writes w.tree (es.flatMap (aloneFiles s output tree)) w'.tree := by
  -- By induction on the course.  Before each turn, the session holds nothing wrong about the dumps
  -- to come, and what was written is elsewhere than their files.
  induction h generalizing es with
  | nil =>
    obtain rfl : es = [] := List.map_eq_nil_iff.1 has.symm
    exact ⟨rfl, by simp, .nil _⟩
  | skipped hopen _ _ =>
    -- No dump is skipped, as each of them can still be read.
    obtain ⟨e, es, rfl, rfl, rfl⟩ := List.map_eq_cons_iff.1 has.symm
    have hsome := openDump_of_load hopen hw (hload e List.mem_cons_self) hgrows
      (hdumps e List.mem_cons_self)
    exact absurd hsome (by simp)
  | @taken w w₁ w₂ w' a rest turns dump made hopen hmade _ ih =>
    obtain ⟨⟨a, dump'⟩, es, rfl, rfl, rfl⟩ := List.map_eq_cons_iff.1 has.symm
    have hdump := hload _ List.mem_cons_self
    have hsome := openDump_of_load hopen hw hdump hgrows (hdumps _ List.mem_cons_self)
    obtain rfl : dump = dump' := Option.some.inj hsome
    have hwhole := Dump.load_whole hdump
    -- Opening the dump leaves caches and tree alone, so the turn selects, declares and writes as
    -- its dump does alone.
    obtain ⟨hcaches, htree, -⟩ := openDump_ok hopen hw
    have hturn := generateDump_ok hmade hcaches.logFile
    have hopened := fun e he => hcaches.faithful (hfaithful e he)
    have hbefore := hopened _ List.mem_cons_self
    obtain ⟨halone, hafter, huntouched⟩ := Turn.of_faithful ⟨a, dump, w₁⟩ hwhole hbefore
    have hopenedTree : tree.Grows written w₁.tree := htree.symm ▸ hgrows
    have hwrites := hturn.writes hwhole hbefore hopenedTree (hplaces _ List.mem_cons_self) htemplate
    dsimp only at hwrites
    rw [htree] at hwrites
    obtain ⟨hfirst, hrest⟩ := List.pairwise_cons.1 hagree
    -- What this turn leaves in the caches is right for the dumps after it, with which it agrees.
    have hlater : ∀ e ∈ es, w₂.session.Faithful e.2.graph s.options := by
      intro e he
      have hkept := (hopened e (List.mem_cons_of_mem _ he)).of_agrees hafter huntouched
        (hfirst e he)
      exact hkept.congr (fun _ => by rw [hturn.names]) fun _ => by rw [hturn.mappings]
    -- The files written so far are among those that were to be written.
    have hgrows' : tree.Grows written w₂.tree := by
      refine hgrows.trans (hwrites.grows.mono fun q hq => hplaces _ List.mem_cons_self q ?_)
      rw [hgrows.cwd] at hq
      exact hq
    obtain ⟨hturns, halone', hwrites'⟩ := ih hturn.logFile rfl
      (fun e he => hload e (List.mem_cons_of_mem _ he)) hgrows'
      (fun e he => hdumps e (List.mem_cons_of_mem _ he))
      (fun e he => hplaces e (List.mem_cons_of_mem _ he)) hrest hlater
    refine ⟨by rw [List.map_cons, hturns], ?_, hwrites.append hwrites'⟩
    intro turn hmem
    rcases List.mem_cons.1 hmem with rfl | hmem
    · exact ⟨(Session.faithful_iff hwhole.closed).1 hbefore, halone⟩
    · exact halone' turn hmem

/-! ## §4. Runs -/

/-- A completed run over assemblies that are apart. -/
theorem generate_apart {es : List Source} (hs : s.assemblies = es.map (·.1))
    (hload : ∀ e ∈ es, Dump.load tree e.1.path = .ok (.ok e.2)) (hapart : Apart s output tree es)
    (hagree : Agreeing s.options es) {report : Report} {w' : World}
    (h : (generate Dump.load s output).outcome (World.start tree none) = (.ok report, w')) :
    (∃ turns w₁, Course Dump.load s output (begun tree output) s.assemblies turns w₁ ∧
      (turns.map fun turn => (turn.assembly, turn.dump)) = es ∧
      ∀ turn ∈ turns, turn.before.session.Undisturbed turn.dump.graph s.options ∧
        (turn.selected, turn.results s.options) = Turn.alone s.options turn.assembly turn.dump) ∧
    report.files = (es.flatMap fun e => (aloneFiles s output tree e).map (·.1))
      ++ [Output.indexPath output] ∧
    ∃ text, Tree.Writes tree
      (es.flatMap (aloneFiles s output tree) ++ [(Output.indexPath output, text)]) w'.tree := by
  -- A completed run is a course that starts on empty caches, and then the index is written.
  obtain ⟨turns, w₁, hcourse, hfiles, -, text, hindex⟩ := generate_ok h
  have hcaches : SameCaches (World.start tree none) (begun tree output) := ⟨rfl, rfl, rfl⟩
  obtain ⟨hturns, halone, hwrites⟩ := hcourse.apart
    (fun q => ∃ e ∈ es, q ∈ alonePlaces s output tree e) (logFile_begun tree output) hs
    hload .refl (fun e he ⟨e', he', hq⟩ => hapart.dumps e he e' he' hq)
    (fun e he q hq => ⟨e, he, hq⟩) hapart.template hagree
    fun e _ => hcaches.faithful Session.faithful_start
  rw [tree_begun] at hwrites
  refine ⟨⟨turns, w₁, hcourse, hturns, halone⟩, ?_, text, hwrites.append (.cons hindex (.nil _))⟩
  -- The report lists the paths of the turns, which are those of the dumps alone.
  rw [hfiles, ← hturns, List.flatMap_map]
  refine congrArg (· ++ [Output.indexPath output]) (List.flatMap_congr fun turn hturn => ?_)
  have hresults : turn.results s.options = (Turn.alone s.options turn.assembly turn.dump).2 :=
    congrArg Prod.snd (halone turn hturn).2
  rw [Turn.paths, hresults, aloneFiles, List.map_map]
  rfl

end Run

theorem Apart.single {s : Settings} {output : Path} {tree : Tree} {es : List Source}
    (h : Apart s output tree es) {e : Source} (he : e ∈ es) :
    Apart { s with assemblies := [e.1] } output tree [e] where
  places := List.pairwise_singleton _ _
  index := fun e' he' => List.mem_singleton.1 he' ▸ h.index e he
  dumps := by
    intro e₁ he₁ e₂ he₂
    rw [List.mem_singleton.1 he₁, List.mem_singleton.1 he₂]
    exact h.dumps e he e he
  template := by
    intro t ht
    refine h.template t (ht.mono ?_)
    rintro q ⟨e', he', hq⟩
    exact ⟨e, he, List.mem_singleton.1 he' ▸ hq⟩

/-- What a shared run has written, one assembly can write in a run of its own, and where no file
    takes the place of another the two have the same files for it. -/
theorem exists_run_alone {s : Settings} {output : Path} {tree T : Tree} {es : List Source}
    (hload : ∀ e ∈ es, Dump.load tree e.1.path = .ok (.ok e.2)) (hapart : Apart s output tree es)
    {text : String} (hwrites : Tree.Writes tree
      (es.flatMap (aloneFiles s output tree) ++ [(Output.indexPath output, text)]) T)
    {e : Source} (he : e ∈ es) :
    ∃ report w, (Run.generate Dump.load { s with assemblies := [e.1] } output).outcome
        (World.start tree none) = (.ok report, w) ∧
      report.files = (aloneFiles s output tree e).map (·.1) ++ [Output.indexPath output] ∧
      ∀ p ∈ (aloneFiles s output tree e).map (·.1), ∃ text,
        T.find p = .ok (p.goal tree.cwd, .file text) ∧
        w.tree.find p = .ok (p.goal tree.cwd, .file text) := by
  have hhas : ∀ file ∈ aloneFiles s output tree e, T.HasFile file.1 := fun file hfile =>
    hwrites.hasFile file (List.mem_append_left _ (List.mem_flatMap.2 ⟨e, he, hfile⟩))
  have hself : tree.Grows (fun _ => False) tree := .refl
  obtain ⟨hthere, hdump⟩ := Dump.load_of_grows (hload e he) hself id
  -- The run of one assembly has nothing to write that the shared run has not written.
  obtain ⟨report, w, hrun⟩ := Run.generate_completes (s := { s with assemblies := [e.1] })
    rfl hwrites.within hthere hdump (Dump.load_whole hdump)
    (fun r hr => hhas _ (List.mem_map_of_mem hr))
    (hwrites.hasFile (Output.indexPath output, text) (by simp))
  have hone : ∀ e' ∈ [e], Dump.load tree e'.1.path = .ok (.ok e'.2) := fun e' he' =>
    List.mem_singleton.1 he' ▸ hload e he
  -- It is a run over assemblies that are apart, so it writes the same files and an index.
  obtain ⟨-, hfiles', text', hwrites'⟩ := Run.generate_apart rfl hone (hapart.single he)
    (List.pairwise_singleton _ _) hrun
  rw [List.flatMap_singleton] at hfiles' hwrites'
  refine ⟨report, w, hrun, hfiles', fun p hp => ?_⟩
  -- The files of the assemblies before and after, and either index, are at other places.
  obtain ⟨before, after, rfl⟩ := List.append_of_mem he
  have hgoal : p.goal tree.cwd ∈ alonePlaces s output tree e := by
    obtain ⟨file, hfile, rfl⟩ := List.mem_map.1 hp
    exact List.mem_map_of_mem hfile
  have hindex : p.goal tree.cwd ≠ (Output.indexPath output).goal tree.cwd := fun heq =>
    hapart.index e he (heq ▸ hgoal)
  have hlater : ∀ later ∈ after, p.goal tree.cwd ∉ alonePlaces s output tree later := by
    intro later hmem
    have hdisjoint := (List.pairwise_cons.1 (List.pairwise_append.1 hapart.places).2.1).1 later hmem
    exact fun hq => hdisjoint hgoal hq
  have hshared : tree.Writes (before.flatMap (aloneFiles s output tree)
      ++ aloneFiles s output tree e
      ++ (after.flatMap (aloneFiles s output tree) ++ [(Output.indexPath output, text)]))
      T := by simpa using hwrites
  have halone : tree.Writes ([] ++ aloneFiles s output tree e
      ++ [(Output.indexPath output, text')]) w.tree := hwrites'
  refine hshared.found_same halone rfl hp ?_ ?_
  · rw [Tree.mem_goals_append, not_or]
    refine ⟨fun hmem => ?_, by simpa [Tree.goals] using hindex⟩
    obtain ⟨file, hfile, hq⟩ := List.mem_map.1 hmem
    obtain ⟨later, hmem, hfile⟩ := List.mem_flatMap.1 hfile
    exact hlater later hmem (hq ▸ List.mem_map_of_mem hfile)
  · simpa [Tree.goals] using hindex

/-- Dumps agree exactly when no work on an earlier one disturbs a later one. -/
theorem agreeing_iff {o : Options} {es : List Source} (hclosed : ∀ e ∈ es, e.2.graph.Closed) :
    Agreeing o es ↔ es.Pairwise fun e later => ∀ named mapped, (∀ d ∈ named, e.2.graph.Has d) →
      (worked e.2.graph o named mapped).Undisturbed later.2.graph o := by
  constructor
  · intro h
    exact h.imp_of_mem fun _ hlater hagrees => (agrees_iff (hclosed _ hlater)).1 hagrees
  · intro h
    exact h.imp_of_mem fun _ hlater hspared => (agrees_iff (hclosed _ hlater)).2 hspared

/-- Let no file take the place of another.  Each dump agrees with those listed after it exactly
    when no work on the one changes a name or an expression of the other.  Then a completed run
    gives each dump the names and expressions, and selects and declares from it, as if it were
    the only one; and each assembly has a run of its own that is completed too, and the files of
    its namespaces are the same in both. -/
theorem generate_isolated (s : Settings) (output : Path) (tree : Tree) (es : List Source)
    (hs : s.assemblies = es.map (·.1))
    (hload : ∀ e ∈ es, Dump.load tree e.1.path = .ok (.ok e.2))
    (hapart : Apart s output tree es) :
    (Agreeing s.options es ↔
      es.Pairwise fun e later => ∀ named mapped, (∀ d ∈ named, e.2.graph.Has d) →
        (worked e.2.graph s.options named mapped).Undisturbed later.2.graph s.options) ∧
    (Agreeing s.options es → ∀ report w',
      (Run.generate Dump.load s output).outcome (World.start tree none) = (.ok report, w') →
      (∃ turns w₁, Run.Course Dump.load s output (Run.begun tree output) s.assemblies turns w₁ ∧
        (turns.map fun turn => (turn.assembly, turn.dump)) = es ∧
        ∀ turn ∈ turns, turn.before.session.Undisturbed turn.dump.graph s.options ∧
          (turn.selected, turn.results s.options)
            = Turn.alone s.options turn.assembly turn.dump) ∧
      report.files = (es.flatMap fun e => (aloneFiles s output tree e).map (·.1))
        ++ [Output.indexPath output] ∧
      ∀ e ∈ es, ∃ report' w'',
        (Run.generate Dump.load { s with assemblies := [e.1] } output).outcome
          (World.start tree none) = (.ok report', w'') ∧
        report'.files = (aloneFiles s output tree e).map (·.1) ++ [Output.indexPath output] ∧
        ∀ p ∈ (aloneFiles s output tree e).map (·.1), ∃ text,
          w'.tree.find p = .ok (p.goal tree.cwd, .file text) ∧
          w''.tree.find p = .ok (p.goal tree.cwd, .file text)) := by
  -- Dumps that were loaded are closed, so agreement is what shows of a session.
  refine ⟨agreeing_iff fun e he => (Dump.load_whole (hload e he)).closed, ?_⟩
  intro hagree report w' h
  -- The shared run writes the files that the dumps have alone, and each run alone the same ones.
  obtain ⟨hturns, hfiles, text, hwrites⟩ := Run.generate_apart hs hload hapart hagree h
  exact ⟨hturns, hfiles, fun e he => exists_run_alone hload hapart hwrites he⟩

/-! ### A delegate that another dump refers to -/

/-- The files of three dumps that refer to one type, which only the second one describes. -/
def holderTree : Tree :=
  { cwd := ["work"]
    nodes := [(["work"], .directory),
      (["work", "A.json"], .file
        ("\x7b\"types\":[\x7b\"id\":\"A.T\","
          ++ "\"fields\":[\x7b\"name\":\"f\",\"type\":\"B.H\"\x7d]\x7d]\x7d")),
      (["work", "B.json"], .file
        ("\x7b\"types\":[\x7b\"id\":\"B.H\",\"kind\":\"delegate\",\"invoke\":\x7b\x7d\x7d,"
          ++ "\x7b\"id\":\"B.T\",\"fields\":[\x7b\"name\":\"f\",\"type\":\"B.H\"\x7d]\x7d]\x7d")),
      (["work", "C.json"], .file
        "\x7b\"types\":[\x7b\"id\":\"C.T\",\"base_type\":\"B.H\"\x7d]\x7d")] }

def holderDump? (file : String) : Option Dump :=
  match Dump.load holderTree ⟨.relative, [file]⟩ with
  | .ok (.ok dump) => some dump
  | _ => none

def holderAssembly (file : String) : Settings.Assembly :=
  ⟨⟨.relative, [file]⟩, ["*"]⟩

def holderSettings (files : List String) : Settings :=
  { root := ⟨.relative, []⟩, assemblies := files.map holderAssembly }

def holderOutcome (files : List String) : Except Abort Report × World :=
  (Run.generate Dump.load (holderSettings files) ⟨.relative, ["out"]⟩).outcome
    (World.start holderTree none)

/-- What a completed run has at a place. -/
def holderNode? (files : List String) (place : Place) : Option Node :=
  match holderOutcome files with
  | (.ok _, w) => w.tree.node? place
  | (.error _, _) => none

theorem exists_of_holderNode? {files : List String} {place : Place} {n : Node}
    (h : holderNode? files place = some n) :
    ∃ report w', holderOutcome files = (.ok report, w') ∧ w'.tree.node? place = some n := by
  unfold holderNode? at h
  split at h
  · next report w' hrun => exact ⟨report, w', hrun, h⟩
  · cases h

theorem load_holderTree {file : String} {dump : Dump} (h : holderDump? file = some dump) :
    Dump.load holderTree ⟨.relative, [file]⟩ = .ok (.ok dump) := by
  unfold holderDump? at h
  split at h
  · next dump' hload =>
    rw [← Option.some.inj h]
    exact hload
  · cases h

/-- The identities of a dump, what it makes of the one that is shared, and the files that it has
    alone. -/
structure HolderFacts where
  identities : List Identity
  name : Option String
  dependencies : Option (List Identity)
  expr : TypeExpr
  paths : List Path
  deriving DecidableEq

def holderFacts (file : String) (dump : Dump) : HolderFacts where
  identities := dump.graph.descriptors.map (·.identity)
  name := (dump.graph.find? "B.H").map dump.graph.qualifiedName
  dependencies := (dump.graph.find? "B.H").map (dump.graph.dependencies {})
  expr := dump.graph.expr {} "B.H"
  paths := (aloneFiles (holderSettings []) ⟨.relative, ["out"]⟩ holderTree
    (holderAssembly file, dump)).map (·.1)

/-- The facts of a dump that describes `own` and refers to the shared type. -/
def outsideFacts (own : Identity) (path : Path) : HolderFacts :=
  ⟨[own, "B.H"], some "B.H", some [], ⟨"B.H", false⟩, [path]⟩

/-- Dumps that have nothing but an outside type in common agree. -/
theorem agrees_of_holderFacts {file file' : String} {dump dump' : Dump} {own own' : Identity}
    {path path' : Path} (hown : own ≠ own' ∧ own ≠ "B.H")
    (h : holderFacts file dump = outsideFacts own path)
    (h' : holderFacts file' dump' = outsideFacts own' path') :
    dump.graph.Agrees {} dump'.graph := by
  rw [holderFacts, outsideFacts, HolderFacts.mk.injEq] at h h'
  obtain ⟨hids, hname, -, hexpr, -⟩ := h
  obtain ⟨hids', hname', hlinks', hexpr', -⟩ := h'
  refine .of_leaves fun d d' hd hd' hid => ?_
  have hmem := List.mem_map_of_mem (f := (·.identity)) (Graph.mem_of_find? hd)
  have hmem' := List.mem_map_of_mem (f := (·.identity)) (Graph.mem_of_find? hd')
  rw [hids] at hmem
  rw [hids', ← hid] at hmem'
  have hshared : d.identity = "B.H" := by
    simp only [List.mem_cons, List.not_mem_nil, or_false] at hmem hmem'
    -- The own types differ, so only the outside type is in both.
    rcases hmem with hmem | hmem
    · rw [hmem] at hmem'
      exact absurd hmem' (by simp [hown.1, hown.2])
    · exact hmem
  rw [Graph.Has, hshared] at hd
  rw [Graph.Has, ← hid, hshared] at hd'
  rw [hd, Option.map_some, Option.some.injEq] at hname
  rw [hd', Option.map_some, Option.some.injEq] at hname' hlinks'
  exact ⟨hname.trans hname'.symm, hlinks', by rw [hshared, hexpr, hexpr']⟩

/-- Two dumps that only refer to the type have the same stubs as in runs of their own. -/
theorem holderOutcome_isolated : ∃ dump dump' report w' report' w'' text,
    Apart (holderSettings ["A.json", "C.json"]) ⟨.relative, ["out"]⟩ holderTree
      [(holderAssembly "A.json", dump), (holderAssembly "C.json", dump')] ∧
    Agreeing {} [(holderAssembly "A.json", dump), (holderAssembly "C.json", dump')] ∧
    holderDump? "A.json" = some dump ∧ holderDump? "C.json" = some dump' ∧
    holderOutcome ["A.json", "C.json"] = (.ok report, w') ∧
    holderOutcome ["C.json"] = (.ok report', w'') ∧
    w'.tree.node? ["work", "out", "C", "C.lua"] = some (.file text) ∧
    w''.tree.node? ["work", "out", "C", "C.lua"] = some (.file text) := by
  have hfacts : (holderDump? "A.json").map (holderFacts "A.json")
      = some (outsideFacts "A.T" ⟨.relative, ["out", "A", "A.lua"]⟩) := by decide +kernel
  have hfacts' : (holderDump? "C.json").map (holderFacts "C.json")
      = some (outsideFacts "C.T" ⟨.relative, ["out", "C", "C.lua"]⟩) := by decide +kernel
  have hends : (holderNode? ["A.json", "C.json"] []).isSome := by decide +kernel
  obtain ⟨dump, hdump, hfacts⟩ := Option.map_eq_some_iff.1 hfacts
  obtain ⟨dump', hdump', hfacts'⟩ := Option.map_eq_some_iff.1 hfacts'
  obtain ⟨n, hends⟩ := Option.isSome_iff_exists.1 hends
  obtain ⟨report, w', hrun, -⟩ := exists_of_holderNode? hends
  have hagrees := agrees_of_holderFacts (by decide) hfacts hfacts'
  have hplaces : ∀ {file dump own path}, holderFacts file dump = outsideFacts own path →
      alonePlaces (holderSettings ["A.json", "C.json"]) ⟨.relative, ["out"]⟩ holderTree
        (holderAssembly file, dump) = [path.goal ["work"]] := by
    intro file dump own path h
    have hpaths := congrArg (List.map (Path.goal · ["work"])) (congrArg HolderFacts.paths h)
    rw [holderFacts, List.map_map] at hpaths
    exact hpaths
  have hplaces₁ := hplaces hfacts
  have hplaces₂ := hplaces hfacts'
  have hload : ∀ e ∈ [(holderAssembly "A.json", dump), (holderAssembly "C.json", dump')],
      Dump.load holderTree e.1.path = .ok (.ok e.2) := by
    intro e he
    simp only [List.mem_cons, List.not_mem_nil, or_false] at he
    rcases he with rfl | rfl
    · exact load_holderTree hdump
    · exact load_holderTree hdump'
  have hapart : Apart (holderSettings ["A.json", "C.json"]) ⟨.relative, ["out"]⟩ holderTree
      [(holderAssembly "A.json", dump), (holderAssembly "C.json", dump')] :=
    { places := by
        rw [List.pairwise_pair, hplaces₁, hplaces₂]
        exact List.singleton_disjoint.2 (by decide)
      index := by simp only [List.forall_mem_cons, hplaces₁, hplaces₂]; decide
      dumps := by simp only [List.forall_mem_cons, hplaces₁, hplaces₂]; decide
      template := fun _ _ => rfl }
  have hagree : Agreeing {} [(holderAssembly "A.json", dump), (holderAssembly "C.json", dump')] :=
    List.pairwise_pair.2 hagrees
  obtain ⟨-, hisolated⟩ := generate_isolated (holderSettings ["A.json", "C.json"])
    ⟨.relative, ["out"]⟩ holderTree _ rfl hload hapart
  obtain ⟨-, -, halone⟩ := hisolated hagree report w' hrun
  obtain ⟨report', w'', hrun', -, hfound⟩ := halone (holderAssembly "C.json", dump') (by simp)
  obtain ⟨text, hfind, hfind'⟩ := hfound ⟨.relative, ["out", "C", "C.lua"]⟩ (by
    show _ ∈ (holderFacts "C.json" dump').paths
    rw [hfacts']
    exact List.mem_singleton_self _)
  exact ⟨dump, dump', report, w', report', w'', text, hapart, hagree, hdump, hdump', hrun, hrun',
    (Tree.find_eq_ok.1 hfind).2, (Tree.find_eq_ok.1 hfind').2⟩

/-- The stubs of a class and of the delegate that its field has. -/
def handlerText (type : String) : String :=
  "---@meta\n---Auto-generated from B\n---Namespace: B\n\n---@class B.H: System.Object\n"
    ++ "CS.B.H = \x7b\x7d\n\n\n---@class B.T: System.Object\n---@field f " ++ type
    ++ "\nCS.B.T = \x7b\x7d\n\n\n"

/-- The dump that describes the delegate has other stubs after one that refers to it. -/
theorem holderOutcome_depends_on_others :
    ["A.json", "B.json"].map (fun file => (holderDump? file).map (·.name)) = [some "A", some "B"] ∧
    handlerText "B.H" ≠ handlerText "fun()" ∧
    ∃ report w' report' w'', holderOutcome ["A.json", "B.json"] = (.ok report, w') ∧
      holderOutcome ["B.json"] = (.ok report', w'') ∧
      w'.tree.node? ["work", "out", "B", "B.lua"] = some (.file (handlerText "B.H")) ∧
      w''.tree.node? ["work", "out", "B", "B.lua"] = some (.file (handlerText "fun()")) := by
  have hshared : holderNode? ["A.json", "B.json"] ["work", "out", "B", "B.lua"]
      = some (.file (handlerText "B.H")) := by decide +kernel
  have halone : holderNode? ["B.json"] ["work", "out", "B", "B.lua"]
      = some (.file (handlerText "fun()")) := by decide +kernel
  obtain ⟨report, w', hrun, hnode⟩ := exists_of_holderNode? hshared
  obtain ⟨report', w'', hrun', hnode'⟩ := exists_of_holderNode? halone
  exact ⟨by decide +kernel, by decide +kernel, report, w', report', w'', hrun, hrun', hnode, hnode'⟩

end EmmyStubs
