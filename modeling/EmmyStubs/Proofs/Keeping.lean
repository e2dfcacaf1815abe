import Mathlib.Data.List.Nodup
import EmmyStubs.Proofs.Groups
import EmmyStubs.Proofs.Turns

/-! # What a run keeps

    A later file takes the place of an earlier one where both lead to one place, and nothing
    tells that the earlier one is gone.

    * **`Shows`**: a file holds what a template makes of all declarations of a group.
    * **`keptBlocks`**: the number of declarations in the files that are not written over.
    * **`Lossless`**: no path is reported twice, every selected type has its declaration or note
      in the file reported for it, and there are as many as reported.
    * **`generate_lossless_iff`**: a run is lossless exactly when all its files lead to different
      places.
-/

namespace EmmyStubs

open EmmyStubs.Files

/-! ## §1. Blocks in a file -/

/-- A filled template holds the value of each of its places as it is. -/
theorem Template.infix_fill {template : String} {name : List Char}
    {values : List (String × String)} {value : String × String}
    (h : Template.Piece.place name ∈ Template.pieces none template.toList)
    (hvalue : values.find? (·.1.toList == name) = some value) :
    value.2.toList <:+: (Template.fill template values).toList := by
  -- The value stands between what the pieces before and behind it come to.
  obtain ⟨before, after, hpieces⟩ := List.append_of_mem h
  have hfill : Template.Piece.fill values (.place name) = value.2.toList := by
    rw [Template.Piece.fill, hvalue]
  unfold Template.fill
  rw [String.toList_ofList, hpieces, List.flatMap_append, List.flatMap_cons, hfill,
    ← List.append_assoc]
  exact List.infix_append _ _ _

namespace Output

/-- A template with a place for the declarations. -/
def HasBlock (template : String) : Prop :=
  Template.Piece.place "namespace_block".toList ∈ Template.pieces none template.toList

instance (template : String) : Decidable (HasBlock template) :=
  inferInstanceAs (Decidable (_ ∈ _))

theorem hasBlock_namespaceTemplate : HasBlock namespaceTemplate := by decide +kernel

theorem find?_block (assembly block : String) :
    [("assembly_name", assembly), ("namespace_block", block)].find?
      (·.1.toList == "namespace_block".toList) = some ("namespace_block", block) := by
  have hother : ("assembly_name".toList == "namespace_block".toList) = false := by decide +kernel
  rw [List.find?_cons_of_neg, List.find?_cons_of_pos]
  · exact beq_self_eq_true _
  · exact Bool.eq_false_iff.1 hother

/-- Filled with declarations, such a template holds each of them. -/
theorem infix_namespaceText {template assembly : String} {space : Option String}
    {declarations : List Stub.Rendered} (h : HasBlock template) {decl : Stub.Rendered}
    (hdecl : decl ∈ declarations) :
    decl.text.toList <:+: (namespaceText template assembly space declarations).toList := by
  have hblock : decl.text.toList <:+:
      (Stub.namespaceBlock space (declarations.map (·.text))).toList := by
    obtain ⟨before, after, rfl⟩ := List.append_of_mem hdecl
    unfold Stub.namespaceBlock
    simp only [List.map_append, List.map_cons, String.join_append, String.join_cons,
      String.toList_append]
    refine List.IsInfix.trans ?_ (List.suffix_append _ _).isInfix
    exact (List.infix_append _ _ _).trans (List.suffix_append _ _).isInfix
  have hfill := Template.infix_fill h (find?_block assembly
    (Stub.namespaceBlock space (declarations.map (·.text))))
  exact hblock.trans hfill

end Output

/-! ## §2. Places -/

/-- The results of some turns in the order in which they are written, each with its turn. -/
def stubs (o : Options) (turns : List Turn) : List (Turn × GroupResult) :=
  turns.flatMap fun turn => (turn.results o).map fun r => (turn, r)

/-- The file of a result. -/
def stubPath (output : Path) (stub : Turn × GroupResult) : Path :=
  Output.namespacePath output stub.1.dump.name stub.2.space

/-- The places of the files of some turns. -/
def stubPlaces (output : Path) (cwd : Place) (turns : List (Turn × GroupResult)) : List Place :=
  turns.map fun stub => (stubPath output stub).goal cwd

/-- The number of blocks in the files that are not written over, given the place of each file
    and the number of its blocks in the order of writing. -/
def keptBlocks : List (Place × Nat) → Nat
  | [] => 0
  | (q, n) :: rest => (if q ∈ rest.map (·.1) then 0 else n) + keptBlocks rest

theorem keptBlocks_le (l : List (Place × Nat)) : keptBlocks l ≤ (l.map (·.2)).sum := by
  induction l with
  | nil => exact Nat.le_refl _
  | cons e l ih =>
    obtain ⟨q, n⟩ := e
    simp only [keptBlocks, List.map_cons, List.sum_cons]
    split <;> omega

/-- All blocks are kept exactly when the places differ, if every file but the last has some. -/
theorem keptBlocks_eq_sum_iff {l : List (Place × Nat)} (h : ∀ e ∈ l, 0 < e.2) (last : Place) :
    keptBlocks (l ++ [(last, 0)]) = (l.map (·.2)).sum ↔ (l.map (·.1) ++ [last]).Nodup := by
  induction l with
  | nil => simp [keptBlocks]
  | cons e l ih =>
    obtain ⟨q, n⟩ := e
    have hn : 0 < n := h (q, n) List.mem_cons_self
    have hle := keptBlocks_le (l ++ [(last, 0)])
    have hih := ih fun e he => h e (List.mem_cons_of_mem _ he)
    simp only [List.map_append, List.map_cons, List.map_nil, List.sum_append, List.sum_cons,
      List.sum_nil, Nat.add_zero] at hle
    simp only [List.cons_append, keptBlocks, List.map_cons, List.map_append, List.map_nil,
      List.sum_cons, List.nodup_cons, ← hih]
    -- If the place comes again its blocks are lost, and the others cannot make up for them.
    by_cases hq : q ∈ l.map (·.1) ++ [last]
    · simp only [hq, if_true, not_true, false_and, iff_false]
      omega
    · simp only [hq, if_false, not_false_eq_true, true_and]
      omega

/-! ## §3. Results and selected types -/

namespace Turn

variable {o : Options} {turn : Turn}

theorem translates (o : Options) (turn : Turn) :
    List.Forall₂ Translates (groupBySpace turn.selected) (turn.results o) :=
  renderAll_translates _ _

/-- Each selected type is in one result of its turn, that of its namespace. -/
theorem exists_result {d : Descriptor} (hd : d ∈ turn.selected) :
    ∃ r ∈ turn.results o, r.space = d.space? ∧
      ∃ decl ∈ r.declarations, decl.identity = d.identity := by
  have hgrouped := groupBySpace_grouped turn.selected
  obtain ⟨grp, hgrp, hmem⟩ := List.mem_flatMap.1 (hgrouped.all.mem_iff.2 hd)
  obtain ⟨r, hr, htranslates⟩ := exists_of_mem_left (turn.translates o) hgrp
  refine ⟨r, hr, htranslates.space.trans (hgrouped.space grp hgrp d hmem).symm, ?_⟩
  have hid : d.identity ∈ r.declarations.map (·.identity) :=
    htranslates.identities ▸ List.mem_map_of_mem hmem
  exact List.mem_map.1 hid

/-- A turn has as many declarations and notes as selected types. -/
theorem sum_declarations (o : Options) (turn : Turn) :
    ((turn.results o).map (·.declarations.length)).sum = turn.selected.length := by
  rw [map_length_of_translates (turn.translates o), ← List.length_flatMap]
  exact (groupBySpace_grouped turn.selected).all.length_eq

/-- No result is without declarations. -/
theorem declarations_pos {r : GroupResult} (hr : r ∈ turn.results o) :
    0 < r.declarations.length := by
  have hmem : r.declarations.length ∈ (turn.results o).map (·.declarations.length) :=
    List.mem_map_of_mem hr
  rw [map_length_of_translates (turn.translates o)] at hmem
  obtain ⟨grp, hgrp, hlength⟩ := List.mem_map.1 hmem
  rw [← hlength]
  exact List.length_pos_iff.2 ((groupBySpace_grouped turn.selected).nonempty grp hgrp)

end Turn

/-- The declarations of all results of some turns. -/
theorem sum_declarations_stubs (o : Options) (turns : List Turn) :
    ((stubs o turns).map (·.2.declarations.length)).sum
      = (turns.map (·.selected.length)).sum := by
  induction turns with
  | nil => rfl
  | cons turn turns ih =>
    have hfirst : ((turn.results o).map fun r => (turn, r)).map (·.2.declarations.length)
        = (turn.results o).map (·.declarations.length) := by simp
    rw [stubs, List.flatMap_cons, List.map_append, List.sum_append, hfirst,
      turn.sum_declarations o, List.map_cons, List.sum_cons]
    exact congrArg _ ih

theorem mem_stubs {o : Options} {turns : List Turn} {stub : Turn × GroupResult} :
    stub ∈ stubs o turns ↔ stub.1 ∈ turns ∧ stub.2 ∈ stub.1.results o := by
  obtain ⟨turn, r⟩ := stub
  simp only [stubs, List.mem_flatMap, List.mem_map, Prod.mk.injEq]
  constructor
  · rintro ⟨_, hturn, _, hr, rfl, rfl⟩
    exact ⟨hturn, hr⟩
  · rintro ⟨hturn, hr⟩
    exact ⟨turn, hturn, r, hr, rfl, rfl⟩

/-! ## §4. Lossless runs -/

section

variable (s : Settings) (output : Path)

/-- In a tree, the file of a result holds what the template made of all its declarations.  Each
    of them is there as it is, if the template has a place for them, as the default one does. -/
def Shows (tree : Tree) (stub : Turn × GroupResult) : Prop :=
  ∃ t text,
    tree.find (stubPath output stub) = .ok ((stubPath output stub).goal tree.cwd, .file text) ∧
    text = Output.namespaceText (stubTemplate s t) stub.1.dump.name stub.2.space
      stub.2.declarations ∧
    (s.templates = none ∨ Output.HasBlock (stubTemplate s t) →
      ∀ decl ∈ stub.2.declarations, decl.text.toList <:+: text.toList)

/-- Nothing that some turns have declared is lost in the end. -/
structure Lossless (turns : List Turn) (report : Report) (tree : Tree) : Prop where
  distinct : report.files.Nodup
  shown : ∀ turn ∈ turns, ∀ d ∈ turn.selected, ∃ r ∈ turn.results s.options, r.space = d.space? ∧
    (∃ decl ∈ r.declarations, decl.identity = d.identity) ∧
    stubPath output (turn, r) ∈ report.files ∧ Shows s output tree (turn, r)
  counted : keptBlocks ((stubs s.options turns).map (fun stub =>
      ((stubPath output stub).goal tree.cwd, stub.2.declarations.length))
    ++ [((Output.indexPath output).goal tree.cwd, 0)]) = report.typeCount

variable {s output} {turns : List Turn} {tree tree' : Tree}

/-- The files that a course has written are those of its results. -/
theorem fileOf_stubs {Reached : Tree → Prop} {parts : List (List (Path × String))}
    (h : List.Forall₂ (fun turn part => List.Forall₂ (Run.FileOf s output turn.dump.name Reached)
      (turn.results s.options) part) turns parts) :
    List.Forall₂ (fun stub file => Run.FileOf s output stub.1.dump.name Reached stub.2 file)
      (stubs s.options turns) parts.flatten := by
  induction h with
  | nil => exact .nil
  | @cons turn part turns parts hpart _ ih =>
    have hfirst : List.Forall₂ (fun (stub : Turn × GroupResult) file =>
        Run.FileOf s output stub.1.dump.name Reached stub.2 file)
        ((turn.results s.options).map fun r => (turn, r)) part :=
      List.forall₂_map_left_iff.2 hpart
    exact List.rel_append hfirst ih

theorem goals_of_fileOf {Reached : Tree → Prop} {results : List (Turn × GroupResult)}
    {files : List (Path × String)} (cwd : Place)
    (h : List.Forall₂ (fun (stub : Turn × GroupResult) file =>
      Run.FileOf s output stub.1.dump.name Reached stub.2 file) results files) :
    Tree.goals cwd files = stubPlaces output cwd results := by
  induction h with
  | nil => rfl
  | cons hfile _ ih => exact congrArg₂ (· :: ·) (congrArg (Path.goal · cwd) hfile.path) ih

/-- A file that is not written over shows its result in the end. -/
theorem shows_of_last {Reached : Tree → Prop} {files : List (Path × String)} {text : String}
    (hwrites : Tree.Writes tree (files ++ [(Output.indexPath output, text)]) tree')
    (hfiles : List.Forall₂ (fun (stub : Turn × GroupResult) file =>
      Run.FileOf s output stub.1.dump.name Reached stub.2 file) (stubs s.options turns) files)
    {before after : List (Turn × GroupResult)} {stub : Turn × GroupResult}
    (hsplit : stubs s.options turns = before ++ stub :: after)
    (hlast : (stubPath output stub).goal tree.cwd ∉ stubPlaces output tree.cwd after
      ++ [(Output.indexPath output).goal tree.cwd]) : Shows s output tree' stub := by
  rw [hsplit] at hfiles
  obtain ⟨before', ⟨path, content⟩, after', rfl, hfile, hafter⟩ := exists_split hfiles
  obtain ⟨hpath, t, -, hcontent⟩ := hfile
  have hgoals : Tree.goals tree.cwd (after' ++ [(Output.indexPath output, text)])
      = stubPlaces output tree.cwd after ++ [(Output.indexPath output).goal tree.cwd] := by
    rw [← goals_of_fileOf tree.cwd hafter]
    exact List.map_append
  rw [List.append_assoc, List.cons_append] at hwrites
  have hpath : path = stubPath output stub := hpath
  have hfound := hwrites.found rfl (by rw [hgoals, hpath]; exact hlast)
  rw [hpath, ← hwrites.grows.cwd] at hfound
  -- The text shows the declarations where the template has a place for them.
  refine ⟨t, content, hfound, hcontent, fun htemplate decl hdecl => ?_⟩
  have hblock : Output.HasBlock (stubTemplate s t) := by
    rcases htemplate with hnone | hblock
    · rw [stubTemplate, hnone]
      exact Output.hasBlock_namespaceTemplate
    · exact hblock
  have hcontent : content = Output.namespaceText (stubTemplate s t) stub.1.dump.name
    stub.2.space stub.2.declarations := hcontent
  exact hcontent ▸ Output.infix_namespaceText hblock hdecl

end

/-- A completed run reports the files of its turns and the index, and the number of types
    selected.  A file that no later one is written over shows its result in the end.  Nothing is
    lost exactly when all files lead to different places. -/
theorem generate_lossless_iff (load : Loader) (s : Settings) (output : Path) (tree : Tree)
    (report : Report) (w' : World)
    (h : (Run.generate load s output).outcome (World.start tree none) = (.ok report, w')) :
    ∃ turns w₁, Run.Course load s output (Run.begun tree output) s.assemblies turns w₁ ∧
      report.files = (stubs s.options turns).map (stubPath output) ++ [Output.indexPath output] ∧
      report.typeCount = (turns.map (·.selected.length)).sum ∧
      (∀ before stub after, stubs s.options turns = before ++ stub :: after →
        (stubPath output stub).goal tree.cwd ∉ stubPlaces output tree.cwd after
          ++ [(Output.indexPath output).goal tree.cwd] → Shows s output w'.tree stub) ∧
      (Lossless s output turns report w'.tree ↔
        (stubPlaces output tree.cwd (stubs s.options turns)
          ++ [(Output.indexPath output).goal tree.cwd]).Nodup) := by
  obtain ⟨turns, w₁, hcourse, hpaths, hcount, text, hindex⟩ := Run.generate_ok h
  obtain ⟨parts, hwrites, hparts⟩ := hcourse.writes (Run.logFile_begun tree output)
  rw [Run.tree_begun] at hwrites
  have hwrites' := hwrites.append (.cons hindex (.nil _))
  have hcwd : w'.tree.cwd = tree.cwd := hwrites'.grows.cwd
  have hshows : ∀ before stub after, stubs s.options turns = before ++ stub :: after →
      (stubPath output stub).goal tree.cwd ∉ stubPlaces output tree.cwd after
        ++ [(Output.indexPath output).goal tree.cwd] → Shows s output w'.tree stub :=
    fun _ _ _ => shows_of_last hwrites' (fileOf_stubs hparts)
  have hfiles : report.files
      = (stubs s.options turns).map (stubPath output) ++ [Output.indexPath output] := by
    rw [hpaths, stubs, List.map_flatMap]
    simp only [List.map_map]
    rfl
  let counts := (stubs s.options turns).map fun stub =>
    ((stubPath output stub).goal tree.cwd, stub.2.declarations.length)
  have hcounts : counts.map (·.1) = stubPlaces output tree.cwd (stubs s.options turns) ∧
      (counts.map (·.2)).sum = report.typeCount := by
    refine ⟨by simp [counts, stubPlaces], ?_⟩
    rw [hcount, ← sum_declarations_stubs s.options turns]
    simp [counts, Function.comp_def]
  have hpos : ∀ e ∈ counts, 0 < e.2 := by
    intro e he
    obtain ⟨stub, hstub, rfl⟩ := List.mem_map.1 he
    exact Turn.declarations_pos (mem_stubs.1 hstub).2
  have hkept := keptBlocks_eq_sum_iff hpos ((Output.indexPath output).goal tree.cwd)
  rw [hcounts.1, hcounts.2] at hkept
  refine ⟨turns, w₁, hcourse, hfiles, hcount, hshows, ?_, ?_⟩
  · -- A lost block is missing from the count, since no file of a group is empty.
    intro hlossless
    have hcounted := hlossless.counted
    rw [hcwd] at hcounted
    exact hkept.1 hcounted
  · -- Different places have different paths, and every file is the last one at its place.
    intro hnodup
    refine ⟨?_, fun turn hturn d hd => ?_, ?_⟩
    · rw [hfiles]
      refine List.Nodup.of_map (Path.goal · tree.cwd) ?_
      rw [List.map_append, List.map_map]
      exact hnodup
    · obtain ⟨r, hr, hspace, hdecl⟩ := Turn.exists_result (o := s.options) hd
      have hstub : (turn, r) ∈ stubs s.options turns := mem_stubs.2 ⟨hturn, hr⟩
      refine ⟨r, hr, hspace, hdecl, ?_, ?_⟩
      · rw [hfiles]
        exact List.mem_append_left _ (List.mem_map_of_mem hstub)
      · obtain ⟨before, after, hsplit⟩ := List.append_of_mem hstub
        refine hshows before (turn, r) after hsplit ?_
        rw [hsplit, stubPlaces, List.map_append, List.map_cons, List.append_assoc] at hnodup
        exact (List.nodup_cons.1 (List.nodup_append.1 hnodup).2.1).1
    · rw [hcwd]
      exact hkept.2 hnodup

/-! ### Two enumerations in one namespace -/

/-- The file of a dump with two enumerations. -/
def pairTree : Tree :=
  { cwd := ["work"]
    nodes := [(["work"], .directory), (["work", "game.json"], .file
      ("\x7b\"assembly\":\"Game\",\"types\":[\x7b\"id\":\"N.A\",\"kind\":\"enum\"\x7d,"
        ++ "\x7b\"id\":\"N.B\",\"kind\":\"enum\"\x7d]\x7d"))] }

/-- The dump listed once for each list of filters. -/
def pairSettings (filters : List (List String)) : Settings :=
  { root := ⟨.relative, []⟩, assemblies := filters.map fun f => ⟨⟨.relative, ["game.json"]⟩, f⟩ }

def pairOutcome (filters : List (List String)) : Except Abort Report × World :=
  (Run.generate Dump.load (pairSettings filters) ⟨.relative, ["out"]⟩).outcome
    (World.start pairTree none)

/-- The file of the namespace `N` with some of the enumerations. -/
def pairText (names : List String) : String :=
  "---@meta\n---Auto-generated from Game\n---Namespace: N\n"
    ++ String.join (names.map fun name =>
      "\n---@enum N." ++ name ++ "\nCS.N." ++ name ++ " = \x7b\n\n\x7d\n") ++ "\n"

/-- Whether a run of two types has come to its end with some files, and with some of the
    enumerations in the file of `N`. -/
def pairEnds (outcome : Except Abort Report × World) (files : List Path) (names : List String) :
    Bool :=
  match outcome.1 with
  | .ok report => report.files == files && report.typeCount == 2
      && outcome.2.tree.node? ["work", "out", "Game", "N.lua"] == some (.file (pairText names))
  | .error _ => false

theorem exists_of_pairEnds {outcome : Except Abort Report × World} {files : List Path}
    {names : List String} (h : pairEnds outcome files names = true) :
    ∃ report w', outcome = (.ok report, w') ∧ report.files = files ∧ report.typeCount = 2 ∧
      w'.tree.node? ["work", "out", "Game", "N.lua"] = some (.file (pairText names)) := by
  obtain ⟨e | report, w'⟩ := outcome
  · cases h
  · simp only [pairEnds, Bool.and_eq_true, beq_iff_eq] at h
    exact ⟨report, w', rfl, h.1.1, h.1.2, h.2⟩

/-- Listed once, the dump has all its types in its file. -/
theorem pairOutcome_lossless : ∃ report w' turns, pairOutcome [["N.A", "N.B"]] = (.ok report, w') ∧
    w'.tree.node? ["work", "out", "Game", "N.lua"] = some (.file (pairText ["A", "B"])) ∧
    Lossless (pairSettings [["N.A", "N.B"]]) ⟨.relative, ["out"]⟩ turns report w'.tree := by
  have hends : pairEnds (pairOutcome [["N.A", "N.B"]])
      [⟨.relative, ["out", "Game", "N.lua"]⟩, ⟨.relative, ["out", "global.lua"]⟩]
      ["A", "B"] = true := by
    decide +kernel
  obtain ⟨report, w', hrun, hfiles, -, hnode⟩ := exists_of_pairEnds hends
  obtain ⟨turns, w₁, -, hstubs, -, -, hlossless⟩ := generate_lossless_iff Dump.load
    (pairSettings [["N.A", "N.B"]]) ⟨.relative, ["out"]⟩ pairTree report w' hrun
  refine ⟨report, w', turns, hrun, hnode, hlossless.2 ?_⟩
  have hplaces := congrArg (List.map (Path.goal · pairTree.cwd)) (hstubs.symm.trans hfiles)
  rw [List.map_append, List.map_map] at hplaces
  exact hplaces ▸ by decide +kernel

theorem pairEnds_twice : pairEnds (pairOutcome [["N.A"], ["N.B"]])
    [⟨.relative, ["out", "Game", "N.lua"]⟩, ⟨.relative, ["out", "Game", "N.lua"]⟩,
      ⟨.relative, ["out", "global.lua"]⟩] ["B"] = true := by
  decide +kernel

/-- Listed twice with one type each, it has the second one only, in a file reported twice. -/
theorem pairOutcome_loses_type : ∃ report w', pairOutcome [["N.A"], ["N.B"]] = (.ok report, w') ∧
    report.typeCount = 2 ∧
    w'.tree.node? ["work", "out", "Game", "N.lua"] = some (.file (pairText ["B"])) ∧
    ¬report.files.Nodup ∧
    ∀ turns, ¬Lossless (pairSettings [["N.A"], ["N.B"]]) ⟨.relative, ["out"]⟩ turns report
      w'.tree := by
  obtain ⟨report, w', hrun, hfiles, hcount, hnode⟩ := exists_of_pairEnds pairEnds_twice
  have htwice : ¬report.files.Nodup := hfiles ▸ by decide
  exact ⟨report, w', hrun, hcount, hnode, htwice, fun _ h => htwice h.distinct⟩

end EmmyStubs
