import Mathlib.Algebra.GroupWithZero.Nat
import EmmyStubs.Proofs.Outcomes

/-! # Turns of a run

    A run takes the configured assemblies one after the other.  One whose dump is loaded has a
    turn: types are selected from the dump, declared, and written.

    * **`Turn`**: an assembly, its dump, and the world in which its turn came.  What it selects
      and the results of its groups follow from these.
    * **`Course`**: the turns that lead from one world to another.
    * **`Fates`**: what became of each assembly on the way, the skipped ones too.
    * **`generate_fates`**: a completed run decides the fate of every configured assembly, reports
      just what the turns have made and which assemblies were skipped, and writes an index of all
      selected types.
    * **`generate_ok`**: so it is a course from the first world on and an index.
-/

namespace EmmyStubs

open EmmyStubs.Files

/-! ## §1. Turns -/

structure Turn where
  assembly : Settings.Assembly
  dump : Dump
  before : World

namespace Turn

/-- The types that are selected, and the session that the selection leaves. -/
def selection (turn : Turn) : List Descriptor × Session :=
  (Selection.select turn.dump.graph turn.dump.types turn.assembly.filters).run turn.before.session

def selected (turn : Turn) : List Descriptor :=
  turn.selection.1

/-- The results of the groups of these types, and the session that translating them leaves. -/
def translation (o : Options) (turn : Turn) : List GroupResult × Session :=
  (renderAll turn.dump.graph o (some turn.dump.name) (groupBySpace turn.selected)).run
    turn.selection.2

def results (o : Options) (turn : Turn) : List GroupResult :=
  (turn.translation o).1

/-- The files of the results, in the order in which they are written. -/
def paths (s : Settings) (output : Path) (turn : Turn) : List Path :=
  (turn.results s.options).map fun r => Output.namespacePath output turn.dump.name r.space

end Turn

/-- The template of namespace files, as the files are. -/
def stubTemplate (s : Settings) (t : Tree) : String :=
  Output.templateText t s.templates Output.namespaceTemplateName Output.namespaceTemplate

namespace Run

variable {load : Loader} {s : Settings} {output : Path}

/-- A dump that is opened was loaded from the files as they were, which opening it leaves. -/
theorem openDump_ok {a : Settings.Assembly} {d : Option Dump} {w w' : World}
    (h : (openDump load a).outcome w = (.ok d, w')) (hw : w.logFile = none) :
    SameCaches w w' ∧ w'.tree = w.tree ∧
      ∀ dump, d = some dump → w.tree.exists? a.path = .ok true ∧
        load w.tree a.path = .ok (.ok dump) := by
  unfold openDump at h
  obtain ⟨t, w₁, hfiles, h⟩ := outcome_bind_ok.1 h
  obtain ⟨rfl, rfl⟩ := outcome_files_ok.1 hfiles
  obtain ⟨there, w₂, hthere, h⟩ := outcome_bind_ok.1 h
  obtain ⟨hthere, rfl⟩ := outcome_need_ok.1 hthere
  split at h
  · next htrue =>
    obtain ⟨loaded, w₃, hload, h⟩ := outcome_bind_ok.1 h
    obtain ⟨hload, rfl⟩ := outcome_need_ok.1 hload
    cases loaded with
    | error e =>
      obtain ⟨_, w₄, hreport, h⟩ := outcome_bind_ok.1 h
      obtain ⟨rfl, rfl⟩ := outcome_pure_ok.1 h
      obtain ⟨hcaches, htree⟩ := report_ok hreport hw
      exact ⟨hcaches, htree, fun _ hd => by cases hd⟩
    | ok dump =>
      obtain ⟨_, w₄, hreport, h⟩ := outcome_bind_ok.1 h
      obtain ⟨_, w₅, hreport', h⟩ := outcome_bind_ok.1 h
      obtain ⟨rfl, rfl⟩ := outcome_pure_ok.1 h
      obtain ⟨hcaches, htree⟩ := report_ok hreport hw
      obtain ⟨hcaches', htree'⟩ := report_ok hreport' hcaches.logFile
      refine ⟨hcaches.trans hcaches', htree'.trans htree, fun _ hd => ?_⟩
      rw [← Option.some.inj hd]
      exact ⟨htrue ▸ liftM_eq_ok.1 hthere, hload⟩
  · obtain ⟨_, w₃, hreport, h⟩ := outcome_bind_ok.1 h
    obtain ⟨rfl, rfl⟩ := outcome_pure_ok.1 h
    obtain ⟨hcaches, htree⟩ := report_ok hreport hw
    exact ⟨hcaches, htree, fun _ hd => by cases hd⟩

/-- The dump of an assembly is missing, or is not accepted by the loader. -/
def Unreadable (load : Loader) (t : Tree) (a : Settings.Assembly) : Prop :=
  t.exists? a.path = .ok false ∨
    t.exists? a.path = .ok true ∧ ∃ e, load t a.path = .ok (.error e)

/-- Just what cannot be read is skipped. -/
theorem openDump_none {a : Settings.Assembly} {w w' : World}
    (h : (openDump load a).outcome w = (.ok none, w')) : Unreadable load w.tree a := by
  unfold openDump at h
  obtain ⟨t, w₁, hfiles, h⟩ := outcome_bind_ok.1 h
  obtain ⟨rfl, rfl⟩ := outcome_files_ok.1 hfiles
  obtain ⟨there, w₂, hthere, h⟩ := outcome_bind_ok.1 h
  obtain ⟨hthere, rfl⟩ := outcome_need_ok.1 hthere
  rw [liftM_eq_ok] at hthere
  cases there with
  | false => exact .inl hthere
  | true =>
    obtain ⟨loaded, w₃, hload, h⟩ := outcome_bind_ok.1 h
    obtain ⟨hload, rfl⟩ := outcome_need_ok.1 hload
    cases loaded with
    | error e => exact .inr ⟨hthere, e, hload⟩
    | ok dump =>
      obtain ⟨_, w₄, -, h⟩ := outcome_bind_ok.1 h
      obtain ⟨_, w₅, -, h⟩ := outcome_bind_ok.1 h
      cases (outcome_pure_ok.1 h).1

/-- What a turn reports and leaves behind. -/
structure Made (s : Settings) (output : Path) (turn : Turn)
    (made : Report × List (Option String)) (w' : World) : Prop where
  files : made.1.files = turn.paths s output
  failures : made.1.failures = (turn.results s.options).flatMap (·.failures)
  skipped : made.1.skipped = []
  typeCount : made.1.typeCount = turn.selected.length
  spaces : made.2 = turn.selected.map (·.space)
  logFile : w'.logFile = none
  names : w'.session.names = (turn.translation s.options).2.names
  mappings : w'.session.mappings = (turn.translation s.options).2.mappings
  written : ∃ files : List (Path × String), Tree.Writes turn.before.tree files w'.tree ∧
    List.Forall₂ (FileOf s output turn.dump.name
      (Tree.Grows (· ∈ Tree.goals turn.before.tree.cwd files) turn.before.tree))
      (turn.results s.options) files

/-- The files of some results are where their namespaces put them. -/
theorem map_path_of_fileOf {assembly : String} {Reached : Tree → Prop} {rs : List GroupResult}
    {files : List (Path × String)}
    (h : List.Forall₂ (FileOf s output assembly Reached) rs files) :
    files.map (·.1) = rs.map fun r => Output.namespacePath output assembly r.space := by
  induction h with
  | nil => rfl
  | cons hfile _ ih => rw [List.map_cons, List.map_cons, ih, hfile.path]

theorem generateDump_ok {a : Settings.Assembly} {dump : Dump}
    {made : Report × List (Option String)} {w w' : World}
    (h : (generateDump s output a.filters dump).outcome w = (.ok made, w'))
    (hw : w.logFile = none) :
    Made s output ⟨a, dump, w⟩ made w' := by
  unfold generateDump at h
  obtain ⟨selected, w₁, hselect, h⟩ := outcome_bind_ok.1 h
  obtain ⟨rfl, rfl⟩ := perform_ok hselect hw
  obtain ⟨results, w₂, hrender, h⟩ := outcome_bind_ok.1 h
  obtain ⟨rfl, rfl⟩ := perform_ok hrender hw
  obtain ⟨paths, w₃, hwrite, h⟩ := outcome_bind_ok.1 h
  obtain ⟨rfl, rfl⟩ := outcome_pure_ok.1 h
  obtain ⟨hcaches, files, rfl, hwrites, hfiles⟩ := writeGroups_ok hwrite hw
  exact
    { files := map_path_of_fileOf hfiles
      failures := rfl
      skipped := rfl
      typeCount := rfl
      spaces := rfl
      logFile := hcaches.logFile
      names := hcaches.names
      mappings := hcaches.mappings
      written := ⟨files, hwrites, hfiles⟩ }

/-! ## §2. Courses -/

/-- Some assemblies were taken in turn; `turns` are those whose dumps were loaded. -/
inductive Course (load : Loader) (s : Settings) (output : Path) :
    World → List Settings.Assembly → List Turn → World → Prop
  | nil (w : World) : Course load s output w [] [] w
  | skipped {w w₁ w' : World} {a : Settings.Assembly} {rest : List Settings.Assembly}
      {turns : List Turn} (hopen : (openDump load a).outcome w = (.ok none, w₁))
      (h : Course load s output w₁ rest turns w') : Course load s output w (a :: rest) turns w'
  | taken {w w₁ w₂ w' : World} {a : Settings.Assembly} {rest : List Settings.Assembly}
      {turns : List Turn} {dump : Dump} {made : Report × List (Option String)}
      (hopen : (openDump load a).outcome w = (.ok (some dump), w₁))
      (hmade : (generateDump s output a.filters dump).outcome w₁ = (.ok made, w₂))
      (h : Course load s output w₂ rest turns w') :
      Course load s output w (a :: rest) (⟨a, dump, w₁⟩ :: turns) w'

/-- What became of an assembly: its dump was loaded and had a turn, or it was skipped in some
    world. -/
inductive Fate where
  | taken (turn : Turn)
  | skipped (a : Settings.Assembly) (before : World)

namespace Fate

def assembly : Fate → Settings.Assembly
  | taken turn => turn.assembly
  | skipped a _ => a

def turn? : Fate → Option Turn
  | taken turn => some turn
  | skipped _ _ => none

/-- The path that is reported as skipped. -/
def skipped? : Fate → Option Path
  | taken _ => none
  | skipped a _ => some a.path

/-- The fate of an assembly is up to its dump, as the files were when it was opened. -/
def Justified (load : Loader) : Fate → Prop
  | taken turn => turn.before.tree.exists? turn.assembly.path = .ok true ∧
      load turn.before.tree turn.assembly.path = .ok (.ok turn.dump)
  | skipped a before => Unreadable load before.tree a

end Fate

/-- The turns among some fates. -/
def turnsOf (fates : List Fate) : List Turn :=
  fates.filterMap Fate.turn?

/-- What became of some assemblies that were taken in turn. -/
inductive Fates (load : Loader) (s : Settings) (output : Path) : World → List Fate → World → Prop
  | nil (w : World) : Fates load s output w [] w
  | skipped {w w₁ w' : World} {a : Settings.Assembly} {fates : List Fate}
      (hopen : (openDump load a).outcome w = (.ok none, w₁))
      (h : Fates load s output w₁ fates w') : Fates load s output w (.skipped a w :: fates) w'
  | taken {w w₁ w₂ w' : World} {a : Settings.Assembly} {dump : Dump} {fates : List Fate}
      {made : Report × List (Option String)}
      (hopen : (openDump load a).outcome w = (.ok (some dump), w₁))
      (hmade : (generateDump s output a.filters dump).outcome w₁ = (.ok made, w₂))
      (h : Fates load s output w₂ fates w') :
      Fates load s output w (.taken ⟨a, dump, w₁⟩ :: fates) w'

/-- The fates of some assemblies hold a course. -/
theorem Fates.course {fates : List Fate} {w w' : World} (h : Fates load s output w fates w') :
    Course load s output w (fates.map Fate.assembly) (turnsOf fates) w' := by
  induction h with
  | nil w => exact .nil w
  | skipped hopen _ ih => exact .skipped hopen ih
  | taken hopen hmade _ ih => exact .taken hopen hmade ih

theorem Fates.justified {fates : List Fate} {w w' : World} (h : Fates load s output w fates w')
    (hw : w.logFile = none) : ∀ fate ∈ fates, fate.Justified load := by
  induction h with
  | nil w => simp
  | skipped hopen _ ih =>
    obtain ⟨hcaches, -, -⟩ := openDump_ok hopen hw
    exact List.forall_mem_cons.2 ⟨openDump_none hopen, ih hcaches.logFile⟩
  | taken hopen hmade _ ih =>
    obtain ⟨hcaches, htree, hdump⟩ := openDump_ok hopen hw
    obtain ⟨hexists, hload⟩ := hdump _ rfl
    have hw' := (generateDump_ok hmade hcaches.logFile).logFile
    rw [← htree] at hexists hload
    exact List.forall_mem_cons.2 ⟨⟨hexists, hload⟩, ih hw'⟩

/-- What is reported of some assemblies, and the namespaces that come with the report. -/
structure Recorded (s : Settings) (output : Path) (fates : List Fate)
    (made : Report × List (Option String)) : Prop where
  files : made.1.files = (turnsOf fates).flatMap (Turn.paths s output)
  failures : made.1.failures =
    (turnsOf fates).flatMap fun turn => (turn.results s.options).flatMap (·.failures)
  skipped : made.1.skipped = fates.filterMap Fate.skipped?
  typeCount : made.1.typeCount = ((turnsOf fates).map (·.selected.length)).sum
  spaces : made.2 = (turnsOf fates).flatMap fun turn => turn.selected.map (·.space)

theorem generateDumps_fates {as : List Settings.Assembly} {made : Report × List (Option String)}
    {w w' : World} (h : (generateDumps load s output as).outcome w = (.ok made, w'))
    (hw : w.logFile = none) :
    ∃ fates, as = fates.map Fate.assembly ∧ Fates load s output w fates w' ∧ w'.logFile = none ∧
      Recorded s output fates made := by
  induction as generalizing made w with
  | nil =>
    unfold generateDumps at h
    obtain ⟨rfl, rfl⟩ := outcome_pure_ok.1 h
    exact ⟨[], rfl, .nil w, hw, ⟨rfl, rfl, rfl, rfl, rfl⟩⟩
  | cons a rest ih =>
    unfold generateDumps at h
    obtain ⟨d, w₁, hopen, h⟩ := outcome_bind_ok.1 h
    obtain ⟨hcaches, -, -⟩ := openDump_ok hopen hw
    cases d with
    | none =>
      obtain ⟨made₁, w₂, hnone, h⟩ := outcome_bind_ok.1 h
      obtain ⟨rfl, rfl⟩ := outcome_pure_ok.1 hnone
      obtain ⟨made₂, w₃, hrest, h⟩ := outcome_bind_ok.1 h
      obtain ⟨rfl, rfl⟩ := outcome_pure_ok.1 h
      obtain ⟨fates, rfl, hfates, hlog, hrecorded⟩ := ih hrest hcaches.logFile
      exact ⟨.skipped a w :: fates, rfl, .skipped hopen hfates, hlog,
        { files := hrecorded.files
          failures := hrecorded.failures
          skipped := congrArg (a.path :: ·) hrecorded.skipped
          typeCount := (Nat.zero_add _).trans hrecorded.typeCount
          spaces := hrecorded.spaces }⟩
    | some dump =>
      obtain ⟨made₁, w₂, hmade, h⟩ := outcome_bind_ok.1 h
      obtain ⟨made₂, w₃, hrest, h⟩ := outcome_bind_ok.1 h
      obtain ⟨rfl, rfl⟩ := outcome_pure_ok.1 h
      have hturn := generateDump_ok hmade hcaches.logFile
      obtain ⟨fates, rfl, hfates, hlog, hrecorded⟩ := ih hrest hturn.logFile
      exact ⟨.taken ⟨a, dump, w₁⟩ :: fates, rfl, .taken hopen hmade hfates, hlog,
        { files := congrArg₂ (· ++ ·) hturn.files hrecorded.files
          failures := congrArg₂ (· ++ ·) hturn.failures hrecorded.failures
          skipped := congrArg₂ (· ++ ·) hturn.skipped hrecorded.skipped
          typeCount := congrArg₂ (· + ·) hturn.typeCount hrecorded.typeCount
          spaces := congrArg₂ (· ++ ·) hturn.spaces hrecorded.spaces }⟩

/-- The world of a run once it has said where its files go. -/
def begun (tree : Tree) (output : Path) : World :=
  ((report .info .orchestrator ("Generating stubs into " ++ output.toString)).outcome
    (World.start tree none)).2

theorem tree_begun (tree : Tree) (output : Path) : (begun tree output).tree = tree := rfl

theorem logFile_begun (tree : Tree) (output : Path) : (begun tree output).logFile = none := rfl

/-- A completed run and what it has recorded. -/
theorem generate_fates {tree : Tree} {made : Report} {w' : World}
    (h : (generate load s output).outcome (World.start tree none) = (.ok made, w')) :
    ∃ fates w₁ part, s.assemblies = fates.map Fate.assembly ∧
      Fates load s output (begun tree output) fates w₁ ∧ Recorded s output fates part ∧
      made = part.1.append { files := [Output.indexPath output] } ∧
      Tree.Wrote (Output.indexPath output)
        (Output.indexText (indexTemplate s w₁.tree) part.2) w₁.tree w'.tree := by
  unfold generate at h
  obtain ⟨_, w₀, hreport, h⟩ := outcome_bind_ok.1 h
  have hw₀ : w₀ = begun tree output := (congrArg Prod.snd hreport).symm
  obtain ⟨part, w₁, hdumps, h⟩ := outcome_bind_ok.1 h
  obtain ⟨path, w₂, hindex, h⟩ := outcome_bind_ok.1 h
  obtain ⟨_, w₃, hsummary, h⟩ := outcome_bind_ok.1 h
  obtain ⟨w₄, w₅, hget, h⟩ := outcome_bind_ok.1 h
  -- Looking at the session changes nothing.
  have hw₅ : w₅ = w₃ := (congrArg Prod.snd hget).symm
  obtain ⟨_, w₆, husage, h⟩ := outcome_bind_ok.1 h
  obtain ⟨rfl, rfl⟩ := outcome_pure_ok.1 h
  subst hw₀ hw₅
  obtain ⟨fates, has, hfates, hlog, hrecorded⟩ := generateDumps_fates hdumps (logFile_begun _ _)
  obtain ⟨hcaches, rfl, hwrote⟩ := writeIndex_ok hindex hlog
  obtain ⟨hcaches', htree⟩ := report_ok hsummary hcaches.logFile
  obtain ⟨-, htree'⟩ := report_ok husage hcaches'.logFile
  refine ⟨fates, w₁, part, has, hfates, hrecorded, rfl, ?_⟩
  rw [htree', htree]
  exact hwrote

/-- A completed run. -/
theorem generate_ok {tree : Tree} {made : Report} {w' : World}
    (h : (generate load s output).outcome (World.start tree none) = (.ok made, w')) :
    ∃ turns w₁, Course load s output (begun tree output) s.assemblies turns w₁ ∧
      made.files = turns.flatMap (Turn.paths s output) ++ [Output.indexPath output] ∧
      made.typeCount = (turns.map (·.selected.length)).sum ∧
      ∃ text, Tree.Wrote (Output.indexPath output) text w₁.tree w'.tree := by
  obtain ⟨fates, w₁, part, has, hfates, hrecorded, rfl, hwrote⟩ := generate_fates h
  refine ⟨turnsOf fates, w₁, has ▸ hfates.course, ?_, hrecorded.typeCount, _, hwrote⟩
  exact congrArg (· ++ [Output.indexPath output]) hrecorded.files

/-- What a course has written: the files of the results of its turns, in order. -/
theorem Course.writes {w w' : World} {as : List Settings.Assembly} {turns : List Turn}
    (h : Course load s output w as turns w') (hw : w.logFile = none) :
    ∃ parts : List (List (Path × String)), Tree.Writes w.tree parts.flatten w'.tree ∧
      List.Forall₂ (fun turn part => List.Forall₂ (FileOf s output turn.dump.name
        (Tree.Grows (· ∈ Tree.goals w.tree.cwd parts.flatten) w.tree)) (turn.results s.options)
        part) turns parts := by
  induction h with
  | nil w => exact ⟨[], .nil _, .nil⟩
  | skipped hopen _ ih =>
    obtain ⟨hcaches, htree, -⟩ := openDump_ok hopen hw
    obtain ⟨parts, hwrites, hparts⟩ := ih hcaches.logFile
    rw [htree] at hwrites hparts
    exact ⟨parts, hwrites, hparts⟩
  | taken hopen hmade _ ih =>
    -- The files of this turn come before those of the later ones.
    obtain ⟨hcaches, htree, -⟩ := openDump_ok hopen hw
    have hturn := generateDump_ok hmade hcaches.logFile
    obtain ⟨part, hpart, hfiles⟩ := hturn.written
    obtain ⟨parts, hwrites, hparts⟩ := ih hturn.logFile
    have hcwd := hpart.grows.cwd
    dsimp only at hpart hfiles hcwd
    rw [htree] at hpart hfiles hcwd
    rw [hcwd] at hparts
    refine ⟨part :: parts, hpart.append hwrites, .cons ?_ ?_⟩
    · -- What was reached during this turn was reached during the course.
      refine hfiles.imp fun r file hfile => hfile.mono fun t ht => ht.mono fun q hq => ?_
      rw [List.flatten_cons]
      exact Tree.mem_goals_append.2 (.inl hq)
    · -- What was reached later was reached by way of the files of this turn.
      refine hparts.imp fun turn fs hfs => hfs.imp fun r file hfile => hfile.mono fun t ht => ?_
      refine (hpart.grows.mono fun q hq => ?_).trans (ht.mono fun q hq => ?_)
      · rw [List.flatten_cons]
        exact Tree.mem_goals_append.2 (.inl hq)
      · rw [List.flatten_cons]
        exact Tree.mem_goals_append.2 (.inr hq)

end Run

end EmmyStubs
