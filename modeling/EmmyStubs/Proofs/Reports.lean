import EmmyStubs.Proofs.Keeping
import EmmyStubs.Proofs.Tables

/-! # What a report tells

    A completed run gathers its report assembly by assembly, and writes an index in the end.

    * **`Records`**: a reported failure tells of one failed declaration, and the other way round.
    * **`Describes`**: a report and an index tell what became of some assemblies.
    * **`generate_describes`**: so they do for every completed run.
-/

namespace EmmyStubs

open EmmyStubs.Files

variable {g : Graph} {o : Options}

/-! ## §1. Failures -/

/-- A failure is that of a declaration in a file of an assembly. -/
structure Records (slot : String × Stub.Rendered) (failure : Failure) : Prop where
  assembly : failure.assembly = some slot.1
  identity : failure.identity = slot.2.identity
  note : slot.2.text = Failure.note failure.identity (some failure.reason)

/-- The failed ones of some declarations, each with its assembly. -/
def failedSlots (assembly : String) (declarations : List Stub.Rendered) :
    List (String × Stub.Rendered) :=
  (declarations.filter (·.failed)).map (assembly, ·)

theorem renderTypes_records (assembly : String) (ds : List Descriptor) (s : Session) :
    List.Forall₂ Records
      (failedSlots assembly ((renderTypes g o (some assembly) ds).run s).1.1)
      ((renderTypes g o (some assembly) ds).run s).1.2 := by
  induction ds generalizing s with
  | nil => exact .nil
  | cons d ds ih =>
    unfold renderTypes
    rw [Action.run_bind]
    cases hr : ((renderType g o d).run s).1 with
    | ok r =>
      have hfailed : ¬r.failed = true := by simp [failed_of_renderType hr]
      simp only [Action.run_bind, Action.pure_eq_done, Action.run_done, failedSlots]
      rw [List.filter_cons_of_neg hfailed]
      exact ih _
    | error e =>
      simp only [Action.run_bind, Action.pure_eq_done, Action.run_done, failedSlots]
      rw [List.filter_cons_of_pos rfl]
      exact .cons ⟨rfl, rfl, rfl⟩ (ih _)

theorem renderAll_records (assembly : String) (groups : List Group) (s : Session) :
    List.Forall₂ Records
      ((((renderAll g o (some assembly) groups).run s).1).flatMap
        fun r => failedSlots assembly r.declarations)
      ((((renderAll g o (some assembly) groups).run s).1).flatMap (·.failures)) := by
  induction groups generalizing s with
  | nil => exact .nil
  | cons grp rest ih =>
    unfold renderAll
    simp only [Action.run_bind, Action.pure_eq_done, Action.run_done, List.flatMap_cons,
      renderGroup]
    exact List.rel_append (renderTypes_records assembly grp.types s) (ih _)

/-! ## §2. Files -/

/-- A turn writes one file for each namespace of its types, as they first occur. -/
theorem Turn.paths_eq (s : Settings) (output : Path) (turn : Turn) :
    turn.paths s output = (turn.selected.map (·.space?)).eraseDups.map
      (Output.namespacePath output turn.dump.name) := by
  rw [← map_space_groupBySpace, ← map_space_of_translates (turn.translates s.options), List.map_map]
  rfl

/-! ## §3. Indexes -/

namespace Output

/-- A template with a place for the index. -/
def HasTree (template : String) : Prop :=
  Template.Piece.place "tree".toList ∈ Template.pieces none template.toList

theorem find?_tree (tree : String) :
    [("tree", tree)].find? (·.1.toList == "tree".toList) = some ("tree", tree) :=
  List.find?_cons_of_pos (beq_self_eq_true _)

/-- The default template has the index behind its first line. -/
theorem fill_indexTemplate (tree : String) :
    Template.fill indexTemplate [("tree", tree)] = "---@meta\n" ++ tree := by
  have hpieces : Template.pieces none indexTemplate.toList =
      "---@meta\n".toList.map (fun c => .literal [c]) ++ [.place "tree".toList] := by
    decide +kernel
  have hliteral : ∀ cs : List Char,
      (cs.map fun c => Template.Piece.literal [c]).flatMap (Template.Piece.fill [("tree", tree)])
        = cs := by
    intro cs
    simp [List.flatMap_map, Template.Piece.fill]
  have hplace : Template.Piece.fill [("tree", tree)] (.place "tree".toList) = tree.toList := by
    rw [Template.Piece.fill, find?_tree]
  rw [Template.fill, hpieces, List.flatMap_append, hliteral, List.flatMap_singleton, hplace,
    String.ofList_append, String.ofList_toList, String.ofList_toList]

end Output

/-- A text shows some paths as nested tables: the default template behind its first line, any other
    one as they are wherever it has a place for them. -/
def ShowsIndex (s : Settings) (template : String) (P : Set (List String)) (text : String) : Prop :=
  ∃ lines, Index.Tabulates P lines ∧
    let tree := String.join (lines.map Index.Line.text)
    text = Template.fill template [("tree", tree)] ∧
    (s.templates = none → text = "---@meta\n" ++ tree) ∧
    (Output.HasTree template → tree.toList <:+: text.toList)

namespace Run

variable {load : Loader} {s : Settings} {output : Path}

theorem showsIndex_indexText (spaces : List (Option String)) (t : Tree) :
    ShowsIndex s (indexTemplate s t) (Index.paths spaces)
      (Output.indexText (indexTemplate s t) spaces) := by
  have htext := Index.text_eq_join (Index.ofSpaces spaces)
  refine ⟨_, Index.tabulates_ofSpaces spaces, by rw [Output.indexText, htext], fun hnone => ?_,
    fun hplace => ?_⟩
  · rw [indexTemplate, hnone, Output.indexText, htext]
    exact Output.fill_indexTemplate _
  · rw [Output.indexText, ← htext]
    exact Template.infix_fill hplace (Output.find?_tree _)

/-! ## §4. Runs -/

/-- A report, and the files that a run leaves, tell what became of the assemblies of some
    settings.  The index was written on the files `before`. -/
structure Describes (s : Settings) (output : Path) (fates : List Fate) (report : Report)
    (before after : Tree) : Prop where
  assemblies : s.assemblies = fates.map Fate.assembly
  skipped : report.skipped = fates.filterMap Fate.skipped?
  files : report.files = (turnsOf fates).flatMap (fun turn =>
      (turn.selected.map (·.space?)).eraseDups.map (Output.namespacePath output turn.dump.name))
    ++ [Output.indexPath output]
  typeCount : report.typeCount = ((turnsOf fates).map fun turn =>
      ((turn.results s.options).map (·.declarations.length)).sum).sum
  failures : List.Forall₂ Records
    ((turnsOf fates).flatMap fun turn =>
      (turn.results s.options).flatMap fun r => failedSlots turn.dump.name r.declarations)
    report.failures
  index : ∃ text,
    after.find (Output.indexPath output) =
      .ok ((Output.indexPath output).goal after.cwd, .file text) ∧
    ShowsIndex s (indexTemplate s before)
      (Index.paths ((turnsOf fates).flatMap fun turn => turn.selected.map (·.space))) text

/-- The failures of some turns are those of their results. -/
theorem records_turns (o : Options) (turns : List Turn) :
    List.Forall₂ Records
      (turns.flatMap fun turn =>
        (turn.results o).flatMap fun r => failedSlots turn.dump.name r.declarations)
      (turns.flatMap fun turn => (turn.results o).flatMap (·.failures)) := by
  induction turns with
  | nil => exact .nil
  | cons turn turns ih => exact List.rel_append (renderAll_records turn.dump.name _ _) ih

/-- A completed run decides the fate of each configured assembly by its dump, as it finds it, and
    its report and its index describe what came of them. -/
theorem generate_describes (load : Loader) (s : Settings) (output : Path) (tree : Tree)
    (report : Report) (w' : World)
    (h : (generate load s output).outcome (World.start tree none) = (.ok report, w')) :
    ∃ fates w₁, Fates load s output (begun tree output) fates w₁ ∧
      (∀ fate ∈ fates, fate.Justified load) ∧
      Describes s output fates report w₁.tree w'.tree := by
  obtain ⟨fates, w₁, part, has, hfates, hrecorded, rfl, hwrote⟩ := generate_fates h
  refine ⟨fates, w₁, hfates, hfates.justified (logFile_begun tree output), has, ?_, ?_, ?_, ?_, ?_⟩
  · exact (List.append_nil _).trans hrecorded.skipped
  · have hpaths : Turn.paths s output = fun turn => (turn.selected.map (·.space?)).eraseDups.map
        (Output.namespacePath output turn.dump.name) := funext (Turn.paths_eq s output)
    exact congrArg (· ++ [Output.indexPath output]) (hpaths ▸ hrecorded.files)
  · have hcounts : (fun turn : Turn => ((turn.results s.options).map (·.declarations.length)).sum)
        = fun turn => turn.selected.length := funext (Turn.sum_declarations s.options)
    exact hcounts ▸ hrecorded.typeCount
  · have hfailures : (part.1.append { files := [Output.indexPath output] }).failures = _ :=
      (List.append_nil _).trans hrecorded.failures
    rw [hfailures]
    exact records_turns s.options (turnsOf fates)
  · refine ⟨_, ?_, hrecorded.spaces ▸ showsIndex_indexText part.2 w₁.tree⟩
    rw [hwrote.grows.cwd, ← hrecorded.spaces]
    exact hwrote.found

end Run

/-! ### A run over four dumps -/

/-- Two dumps are there and can be read, the first one with a faulty enumeration; of the other two
    one is refused. -/
def yardLoader : Loader := fun _ p =>
  match p.parts with
  | ["quarry.json"] => .ok (.ok
      { name := "Quarry", source := none, externals := []
        types := [
          { identity := "Q.Stone", name := "Stone", space := some "Q",
            fields := [{ name := "grain", type := "Q.Grain" }] },
          { identity := "Q.Deep.Pit", name := "Pit", space := some "Q.Deep" },
          { identity := "Q.Grain", name := "Grain", space := some "Q", kind := .enum,
            constants := [⟨"Fine", .int 1⟩, ⟨"Coarse", .bool true⟩] }] })
  | ["shed.json"] => .ok (.ok
      { name := "Shed", source := none, externals := [],
        types := [{ identity := "Tool", name := "Tool", space := none }] })
  | _ => .ok (.error ⟨none, .missingId⟩)

def yardTree : Tree :=
  { cwd := ["work"]
    nodes := [(["work"], .directory), (["work", "quarry.json"], .file ""),
      (["work", "torn.json"], .file ""), (["work", "shed.json"], .file "")] }

def yardSettings : Settings :=
  { root := ⟨.relative, []⟩
    assemblies := ["gone.json", "quarry.json", "torn.json", "shed.json"].map fun name =>
      ⟨⟨.relative, [name]⟩, ["*"]⟩ }

def yardOutcome : Except Abort Report × World :=
  (Run.generate yardLoader yardSettings ⟨.relative, ["out"]⟩).outcome (World.start yardTree none)

/-- What is reported of the four. -/
def yardReport : Report where
  files := [["out", "Quarry", "Q.lua"], ["out", "Quarry", "Q", "Deep.lua"],
    ["out", "Shed", "-.lua"], ["out", "global.lua"]].map fun parts => ⟨.relative, parts⟩
  failures := [⟨"Q.Grain", "enum member Coarse has non-integer value True", some "Quarry"⟩]
  skipped := [⟨.relative, ["gone.json"]⟩, ⟨.relative, ["torn.json"]⟩]
  typeCount := 4

/-- Whether a run has come to its end with some report. -/
def reportsAs (outcome : Except Abort Report × World) (expected : Report) : Bool :=
  match outcome.1 with
  | .ok report => report.files == expected.files && report.failures == expected.failures
      && report.skipped == expected.skipped && report.typeCount == expected.typeCount
  | .error _ => false

theorem exists_of_reportsAs {outcome : Except Abort Report × World} {expected : Report}
    (h : reportsAs outcome expected = true) : ∃ w', outcome = (.ok expected, w') := by
  obtain ⟨e | report, w'⟩ := outcome
  · cases h
  · simp only [reportsAs, Bool.and_eq_true, beq_iff_eq] at h
    obtain ⟨⟨⟨hfiles, hfailures⟩, hskipped⟩, hcount⟩ := h
    obtain ⟨files, failures, skipped, typeCount⟩ := report
    obtain rfl : files = expected.files := hfiles
    obtain rfl : failures = expected.failures := hfailures
    obtain rfl : skipped = expected.skipped := hskipped
    obtain rfl : typeCount = expected.typeCount := hcount
    exact ⟨w', rfl⟩

theorem yardOutcome_described : ∃ w' fates, ∃ w₁ : World, yardOutcome = (.ok yardReport, w') ∧
    (∀ fate ∈ fates, fate.Justified yardLoader) ∧
    Run.Describes yardSettings ⟨.relative, ["out"]⟩ fates yardReport w₁.tree w'.tree := by
  have hreports : reportsAs yardOutcome yardReport = true := by decide +kernel
  obtain ⟨w', hrun⟩ := exists_of_reportsAs hreports
  obtain ⟨fates, w₁, -, hjustified, hdescribes⟩ := Run.generate_describes yardLoader yardSettings
    ⟨.relative, ["out"]⟩ yardTree yardReport w' hrun
  exact ⟨w', fates, w₁, hrun, hjustified, hdescribes⟩

end EmmyStubs
