import EmmyStubs.Proofs.Confining
import EmmyStubs.Proofs.Groups
import EmmyStubs.Proofs.Selecting
import EmmyStubs.Proofs.Turns

/-! # What a run touches

    A run writes stub files and its log file, and makes directories, whether it comes to its end
    or is aborted on the way.

    * **`Tree.Alters`**: only files at some places were written, and nothing was lost.
    * **`Run.Leaves`**: the stub files that a step has left in the world, and what they have to do
      with its result.  §3 has a rule for every step of a run.
    * **`generate_inside_iff`**: all files of a run are inside its output directory just where
      their names are confined, and then nothing outside of it has changed.
-/

namespace EmmyStubs

open EmmyStubs.Files

/-! ## §1. Altered trees -/

namespace Files.Tree

/-- Directories were added and files at some places were written; whatever there was is there
    still, and of the same kind. -/
structure Alters (touched : Place → Prop) (t t' : Tree) : Prop where
  grows : Grows touched t t'
  within : Within t t'
  new : ∀ q text, ¬touched q → t'.node? q = some (.file text) → t.node? q = some (.file text)

variable {touched touched' : Place → Prop} {t t' t'' : Tree} {p : Path}

namespace Alters

theorem refl : Alters touched t t :=
  ⟨.refl, .refl, fun _ _ _ h => h⟩

theorem mono (h : Alters touched t t') (ht : ∀ q, touched q → touched' q) :
    Alters touched' t t' :=
  ⟨h.grows.mono ht, h.within, fun q text hq => h.new q text fun hmem => hq (ht q hmem)⟩

theorem trans (h : Alters touched t t') (h' : Alters touched t' t'') : Alters touched t t'' :=
  ⟨h.grows.trans h'.grows, h.within.trans h'.within,
    fun q text hq hnew => h.new q text hq (h'.new q text hq hnew)⟩

/-- Where nothing was written the files are the same. -/
theorem node?_iff (h : Alters touched t t') {q : Place} (hq : ¬touched q) (text : String) :
    t'.node? q = some (.file text) ↔ t.node? q = some (.file text) :=
  ⟨h.new q text hq, h.grows.files q text hq⟩

theorem set_directory {at_ : Place} (hnone : t.node? at_ = none) :
    Alters touched t (t.set at_ .directory) := by
  have hgrows : Grows (fun _ => False) t (t.set at_ .directory) := .set_directory hnone
  refine ⟨.set_directory hnone, ⟨rfl, hgrows.directories, fun q text hq => ?_⟩, ?_⟩
  · exact ⟨text, hgrows.files q text id hq⟩
  · intro q text _ hq
    rw [node?_set] at hq
    split at hq
    · cases hq
    · split at hq
      · cases hq
      · exact hq

theorem set_file {at_ : Place} {text : String} (hdir : t.node? at_ ≠ some .directory) :
    Alters (· = at_) t (t.set at_ (.file text)) := by
  have hgrows : Grows (· = at_) t (t.set at_ (.file text)) := .set_file hdir
  have hroot : at_ ≠ [] := fun heq => hdir (heq ▸ node?_nil)
  refine ⟨hgrows, ⟨rfl, hgrows.directories, fun q old hq => ?_⟩, fun q new hne hq => ?_⟩
  · by_cases heq : q = at_
    · exact ⟨text, by rw [node?_set, heq, if_neg hroot, if_pos rfl]⟩
    · exact ⟨old, hgrows.files q old heq hq⟩
  · rw [node?_set, if_neg hne] at hq
    split at hq
    · cases hq
    · exact hq

end Alters

theorem AddsDirectories.alters (h : AddsDirectories t t') : Alters touched t t' := by
  induction h with
  | refl => exact .refl
  | set _ hnone ih => exact ih.trans (.set_directory hnone)

/-- Writing a file, or behind it, alters the place that the path leads to. -/
theorem write_alters {text : String} (h : t.write p text = .ok t') :
    Alters (· = p.goal t.cwd) t t' := by
  unfold write at h
  cases hloc : t.locate p with
  | error e => rw [hloc] at h; cases h
  | ok at_ =>
    rw [hloc] at h
    simp only [bind, Except.bind] at h
    split at h
    · cases h
    · next hdir =>
      rw [← Except.ok.inj h, ← locate_eq_goal hloc]
      exact .set_file hdir

theorem append_alters {text : String} (h : t.append p text = .ok t') :
    Alters (· = p.goal t.cwd) t t' := by
  unfold append at h
  cases hloc : t.locate p with
  | error e => rw [hloc] at h; cases h
  | ok at_ =>
    rw [hloc] at h
    simp only [bind, Except.bind] at h
    rw [← locate_eq_goal hloc]
    split at h
    · cases h
    · next old hold =>
      rw [← Except.ok.inj h]
      exact .set_file (by rw [hold]; simp)
    · next hnone =>
      rw [← Except.ok.inj h]
      exact .set_file (by rw [hnone]; simp)

end Files.Tree

/-! ## §2. Stub files -/

/-- A file that a run writes: that of a namespace of an assembly, or the index. -/
inductive StubFile where
  | ofSpace (assembly : String) (space : Option String)
  | index

namespace StubFile

def path (output : Path) : StubFile → Path
  | .ofSpace assembly space => Output.namespacePath output assembly space
  | .index => Output.indexPath output

/-- The names of a file that a dump of one of some assemblies may give rise to. -/
def Drawn (load : Loader) (as : List Settings.Assembly) : StubFile → Prop
  | .ofSpace assembly space => ∃ a ∈ as, ∃ t dump, load t a.path = .ok (.ok dump) ∧
      assembly = dump.name ∧ ∃ d ∈ dump.types, space = d.space?
  | .index => True

/-- The names are safe. -/
def Confined : StubFile → Prop
  | .ofSpace assembly space => Output.Confined assembly space
  | .index => True

/-- The names discard the output directory, and spell a path inside it. -/
def Returns (output : Path) : StubFile → Prop
  | .ofSpace assembly space => (Output.spelled assembly space).root ≠ .relative ∧
      Path.Inside output (Output.spelled assembly space)
  | .index => False

theorem inside_path_iff {output : Path} {f : StubFile} :
    Path.Inside output (f.path output) ↔ f.Confined ∨ f.Returns output := by
  cases f with
  | ofSpace assembly space => exact Output.inside_namespacePath_iff
  | index => exact iff_of_true (Output.inside_indexPath output) (.inl trivial)

end StubFile

/-- The places that a run may write to when it writes some stub files. -/
def Touched (output : Path) (w : World) (files : List StubFile) (q : Place) : Prop :=
  (∃ p, w.logFile = some p ∧ q = p.goal w.tree.cwd) ∨
    ∃ f ∈ files, q = (f.path output).goal w.tree.cwd

/-- Some stub files were written on the way from one world to another, and are there. -/
structure Reaches (output : Path) (w : World) (files : List StubFile) (w' : World) : Prop where
  logFile : w'.logFile = w.logFile
  tree : Tree.Alters (Touched output w files) w.tree w'.tree
  present : ∀ f ∈ files, w'.tree.HasFile (f.path output)

namespace Reaches

variable {output : Path} {w w' w'' : World} {files files' : List StubFile}

theorem refl : Reaches output w [] w :=
  ⟨rfl, .refl, by simp⟩

theorem trans (h : Reaches output w files w') (h' : Reaches output w' files' w'') :
    Reaches output w (files ++ files') w'' where
  logFile := h'.logFile.trans h.logFile
  tree := by
    refine (h.tree.mono fun q hq => ?_).trans (h'.tree.mono fun q hq => ?_)
    · exact hq.imp_right fun ⟨f, hf, heq⟩ => ⟨f, List.mem_append_left _ hf, heq⟩
    · -- The later places are told from the same directory, and from the same log file.
      rw [Touched, h.logFile, h.tree.grows.cwd] at hq
      exact hq.imp_right fun ⟨f, hf, heq⟩ => ⟨f, List.mem_append_right _ hf, heq⟩
  present := by
    intro f hf
    rcases List.mem_append.1 hf with hf | hf
    · exact (h.present f hf).of_within h'.tree.within h'.tree.grows
    · exact h'.present f hf

/-- Messages go to the log file. -/
theorem keep (w : World) (session : Session) (entries : List Log.Entry) :
    Reaches output w [] (({ w with session } : World).keep entries) := by
  unfold World.keep
  dsimp only
  cases hlog : w.logFile with
  | none => exact ⟨hlog.symm, .refl, by simp⟩
  | some path =>
    dsimp only
    split
    · next t ht =>
      refine ⟨hlog.symm, (Tree.append_alters ht).mono fun q hq => ?_, by simp⟩
      exact .inl ⟨path, hlog, hq⟩
    · exact ⟨hlog.symm, .refl, by simp⟩

end Reaches

namespace Run

/-! ## §3. What the steps of a run leave -/

variable {output : Path} {N : StubFile → Prop} {α β : Type}

/-- Whatever becomes of a step, it has written some stub files, all of which satisfy `N`; if it
    was not aborted, they go with its result. -/
def Leaves (output : Path) (N : StubFile → Prop) (x : Run α)
    (Q : α → List StubFile → Prop) : Prop :=
  ∀ w, ∃ files, (∀ f ∈ files, N f) ∧ Reaches output w files (x.outcome w).2 ∧
    ∀ a, (x.outcome w).1 = .ok a → Q a files

/-- A step that writes no stub file. -/
def Quiet (output : Path) (x : Run α) (Q : α → Prop) : Prop :=
  ∀ w, Reaches output w [] (x.outcome w).2 ∧ ∀ a, (x.outcome w).1 = .ok a → Q a

section

variable {x : Run α} {f : α → Run β}

theorem Leaves.pure {Q : α → List StubFile → Prop} {a : α} (h : Q a []) :
    Leaves output N (Pure.pure a : Run α) Q := by
  intro w
  refine ⟨[], by simp, .refl, fun b hb => ?_⟩
  cases hb
  exact h

theorem Leaves.bind {Q : α → List StubFile → Prop} {R : β → List StubFile → Prop}
    (hx : Leaves output N x Q) (hf : ∀ a files, Q a files →
      Leaves output N (f a) fun b files' => R b (files ++ files')) :
    Leaves output N (x >>= f) R := by
  intro w
  obtain ⟨files, hfiles, hreach, hQ⟩ := hx w
  rw [outcome_bind]
  rcases hout : x.outcome w with ⟨e | a, w'⟩
  · rw [hout] at hreach
    exact ⟨files, hfiles, hreach, fun b hb => by cases hb⟩
  · rw [hout] at hreach hQ
    obtain ⟨files', hfiles', hreach', hR⟩ := hf a files (hQ a rfl) w'
    refine ⟨files ++ files', fun g hg => ?_, hreach.trans hreach', hR⟩
    exact (List.mem_append.1 hg).elim (hfiles g) (hfiles' g)

theorem Quiet.leaves {Q : α → Prop} (h : Quiet output x Q) :
    Leaves output N x fun a files => files = [] ∧ Q a := by
  intro w
  obtain ⟨hreach, hQ⟩ := h w
  exact ⟨[], by simp, hreach, fun a ha => ⟨rfl, hQ a ha⟩⟩

/-- A quiet step leaves what comes after it. -/
theorem Quiet.then {Q : α → Prop} {R : β → List StubFile → Prop} (hx : Quiet output x Q)
    (hf : ∀ a, Q a → Leaves output N (f a) R) : Leaves output N (x >>= f) R := by
  refine hx.leaves.bind fun a files hfiles => ?_
  rw [hfiles.1]
  exact hf a hfiles.2

theorem Quiet.pure {Q : α → Prop} {a : α} (h : Q a) : Quiet output (Pure.pure a : Run α) Q := by
  intro w
  refine ⟨.refl, fun b hb => ?_⟩
  cases hb
  exact h

theorem Quiet.bind {Q : α → Prop} {R : β → Prop} (hx : Quiet output x Q)
    (hf : ∀ a, Q a → Quiet output (f a) R) : Quiet output (x >>= f) R := by
  intro w
  obtain ⟨hreach, hQ⟩ := hx w
  rw [outcome_bind]
  rcases hout : x.outcome w with ⟨e | a, w'⟩
  · rw [hout] at hreach
    exact ⟨hreach, fun b hb => by cases hb⟩
  · rw [hout] at hreach hQ
    obtain ⟨hreach', hR⟩ := hf a (hQ a rfl) w'
    exact ⟨hreach.trans hreach', hR⟩

end

theorem quiet_perform (x : Action α) :
    Quiet output (perform x) fun a => ∃ s, a = (x.run s).1 := by
  intro w
  refine ⟨Reaches.keep w _ _, fun a ha => ⟨w.session, ?_⟩⟩
  exact (Except.ok.inj ha).symm

theorem quiet_report (level : Log.Level) (source : Log.Source) (message : String) :
    Quiet output (report level source message) fun _ => True := by
  intro w
  exact ⟨(quiet_perform (Action.report level source message) w).1, fun _ _ => trivial⟩

theorem quiet_files : Quiet output files fun _ => True :=
  fun _ => ⟨.refl, fun _ _ => trivial⟩

theorem quiet_get : Quiet output (get : Run World) fun _ => True :=
  fun _ => ⟨.refl, fun _ _ => trivial⟩

theorem quiet_need (x : Except Abort α) : Quiet output (need x) fun a => x = .ok a := by
  intro w
  cases x with
  | error e => exact ⟨.refl, fun a ha => by cases ha⟩
  | ok b => exact ⟨.refl, fun a ha => ha⟩

/-- A file is written, or the run is aborted before that. -/
theorem leaves_writeFile {f : StubFile} (hf : N f) (text : String) :
    Leaves output N (writeFile (f.path output) text) fun _ files => files = [f] := by
  refine (quiet_report _ _ _).then fun _ _ w => ?_
  -- The directories may be refused, and the file may be when they are there.
  rw [outcome_bind, outcome_change]
  cases hmake : w.tree.makeDirectories (f.path output).parent with
  | error e => exact ⟨[], by simp, .refl, fun a ha => by cases ha⟩
  | ok t =>
    dsimp only
    rw [outcome_change]
    dsimp only
    have hmade := Tree.makeDirectories_adds hmake
    have hgrows : Tree.Grows (fun _ => False) w.tree t := hmade.grows
    cases hwrite : t.write (f.path output) text with
    | error e =>
      exact ⟨[], by simp, ⟨rfl, hmade.alters, by simp⟩, fun a ha => by cases ha⟩
    | ok t' =>
      have hwritten := Tree.write_alters hwrite
      rw [hgrows.cwd] at hwritten
      refine ⟨[f], by simpa using hf, ⟨rfl, ?_, ?_⟩, fun _ _ => rfl⟩
      · refine hmade.alters.trans (hwritten.mono fun q hq => ?_)
        exact .inr ⟨f, List.mem_singleton_self f, hq⟩
      · intro g hg
        rw [List.mem_singleton.1 hg]
        exact (Tree.wrote_of_ok hmake hwrite).hasFile

variable {s : Settings}

theorem leaves_writeGroup {assembly : String} {r : GroupResult}
    (hr : N (.ofSpace assembly r.space)) :
    Leaves output N (writeGroup s output assembly r) fun path files =>
      [path] = files.map (·.path output) := by
  unfold writeGroup
  refine quiet_files.then fun t _ => ?_
  refine (leaves_writeFile hr _).bind fun _ files hfiles => .pure ?_
  rw [hfiles]
  rfl

theorem leaves_writeGroups {assembly : String} {rs : List GroupResult}
    (hrs : ∀ r ∈ rs, N (.ofSpace assembly r.space)) :
    Leaves output N (writeGroups s output assembly rs) fun paths files =>
      paths = files.map (·.path output) := by
  induction rs with
  | nil => exact .pure rfl
  | cons r rs ih =>
    unfold writeGroups
    refine (leaves_writeGroup (hrs r List.mem_cons_self)).bind fun path files hfiles => ?_
    refine (ih fun r' hr' => hrs r' (List.mem_cons_of_mem r hr')).bind
      fun paths files' hfiles' => .pure ?_
    rw [List.append_nil, List.map_append, ← hfiles, ← hfiles']
    rfl

theorem leaves_writeIndex {spaces : List (Option String)} (hindex : N .index) :
    Leaves output N (writeIndex s output spaces) fun path files =>
      [path] = files.map (·.path output) := by
  unfold writeIndex
  refine quiet_files.then fun t _ => ?_
  refine (leaves_writeFile (f := .index) hindex _).bind fun _ files hfiles => .pure ?_
  rw [hfiles]
  rfl

/-! ## §4. Dumps -/

/-- The namespace of a result is that of one of the types that were grouped. -/
theorem exists_space_of_mem_renderAll {g : Graph} {o : Options} {assembly : Option String}
    {ds : List Descriptor} {session : Session} {r : GroupResult}
    (hr : r ∈ ((renderAll g o assembly (groupBySpace ds)).run session).1) :
    ∃ d ∈ ds, r.space = d.space? := by
  have hgrouped := groupBySpace_grouped ds
  have htranslates : List.Forall₂ Translates (groupBySpace ds)
      ((renderAll g o assembly (groupBySpace ds)).run session).1 := renderAll_translates _ _
  obtain ⟨grp, hgrp, htranslated⟩ := exists_of_mem_left htranslates.flip hr
  -- No group is empty, so the namespace is that of some type.
  obtain ⟨d, hd⟩ := List.exists_mem_of_ne_nil _ (hgrouped.nonempty grp hgrp)
  refine ⟨d, hgrouped.all.mem_iff.1 (List.mem_flatMap.2 ⟨grp, hgrp, hd⟩), ?_⟩
  exact htranslated.space.trans (hgrouped.space grp hgrp d hd).symm

theorem leaves_generateDump {filters : List String} {dump : Dump}
    (hdump : ∀ d ∈ dump.types, N (.ofSpace dump.name d.space?)) :
    Leaves output N (generateDump s output filters dump) fun made files =>
      made.1.files = files.map (·.path output) := by
  unfold generateDump
  refine (quiet_perform _).then fun selected hselected => ?_
  refine (quiet_perform _).then fun results hresults => ?_
  refine (leaves_writeGroups fun r hr => ?_).bind fun paths files hfiles => .pure ?_
  · obtain ⟨session, rfl⟩ := hselected
    obtain ⟨session', rfl⟩ := hresults
    obtain ⟨d, hd, hspace⟩ := exists_space_of_mem_renderAll hr
    rw [hspace]
    exact hdump d (Selection.mem_of_mem_select hd)
  · rw [List.append_nil]
    exact hfiles

/-- A dump that is opened was loaded from the files of some moment. -/
theorem quiet_openDump {load : Loader} (a : Settings.Assembly) :
    Quiet output (openDump load a) fun d => ∀ dump, d = some dump →
      ∃ t, load t a.path = .ok (.ok dump) := by
  unfold openDump
  refine quiet_files.bind fun t _ => ?_
  refine (quiet_need _).bind fun there _ => ?_
  split
  · refine (quiet_need _).bind fun loaded hloaded => ?_
    cases loaded with
    | error e => exact (quiet_report _ _ _).bind fun _ _ => .pure (by simp)
    | ok dump =>
      refine (quiet_report _ _ _).bind fun _ _ => (quiet_report _ _ _).bind fun _ _ => .pure ?_
      intro dump' hdump
      rw [← Option.some.inj hdump]
      exact ⟨t, hloaded⟩
  · exact (quiet_report _ _ _).bind fun _ _ => .pure (by simp)

theorem leaves_generateDumps {load : Loader} {as : List Settings.Assembly}
    (has : ∀ a ∈ as, ∀ t dump, load t a.path = .ok (.ok dump) →
      ∀ d ∈ dump.types, N (.ofSpace dump.name d.space?)) :
    Leaves output N (generateDumps load s output as) fun made files =>
      made.1.files = files.map (·.path output) := by
  induction as with
  | nil => exact .pure rfl
  | cons a rest ih =>
    unfold generateDumps
    refine (quiet_openDump a).then fun d hd => ?_
    have hrest := ih fun a' ha' => has a' (List.mem_cons_of_mem a ha')
    -- The files of this dump come before those of the later ones.
    have hboth : ∀ {made : Report × List (Option String)} {files : List StubFile},
        made.1.files = files.map (·.path output) →
        Leaves output N (generateDumps load s output rest >>= fun later =>
            Pure.pure (made.1.append later.1, made.2 ++ later.2)) fun made' files' =>
          made'.1.files = (files ++ files').map (·.path output) := by
      intro made files hfiles
      refine hrest.bind fun made' files' hfiles' => .pure ?_
      rw [List.append_nil, List.map_append, ← hfiles, ← hfiles']
      rfl
    cases d with
    | none =>
      have hskipped : Leaves output N
          (Pure.pure ({ skipped := [a.path] }, []) : Run (Report × List (Option String)))
          fun made files => made.1.files = files.map (·.path output) := .pure rfl
      exact hskipped.bind fun made files hfiles => hboth hfiles
    | some dump =>
      obtain ⟨t, hload⟩ := hd dump rfl
      have hdump := has a List.mem_cons_self t dump hload
      exact (leaves_generateDump hdump).bind fun made files hfiles => hboth hfiles

/-- A run writes the files of its dumps, and the index last. -/
theorem leaves_generate (load : Loader) (s : Settings) (output : Path) :
    Leaves output (StubFile.Drawn load s.assemblies) (generate load s output) fun report files =>
      report.files = files.map (·.path output) := by
  unfold generate
  refine (quiet_report _ _ _).then fun _ _ => ?_
  refine (leaves_generateDumps fun a ha t dump hload d hd => ?_).bind fun made files hfiles => ?_
  · exact ⟨a, ha, t, dump, hload, rfl, d, hd, rfl⟩
  obtain ⟨part, spaces⟩ := made
  refine (leaves_writeIndex trivial).bind fun path files' hfiles' => ?_
  refine (quiet_report _ _ _).then fun _ _ => quiet_get.then fun w _ => ?_
  refine (quiet_report _ _ _).then fun _ _ => .pure ?_
  rw [List.append_nil, List.map_append, ← hfiles']
  exact congrArg (· ++ [path]) hfiles

end Run

/-! ## §5. Whole runs -/

/-- What a run from some world on has done with the files: it has written some stub files, the
    names of which are drawn from dumps of its assemblies, and nothing else but its log file.  If
    it has come to its end, it reports them. -/
structure Footprint (load : Loader) (s : Settings) (output : Path) (w : World)
    (outcome : Except Abort Report × World) (files : List StubFile) : Prop where
  drawn : ∀ f ∈ files, f.Drawn load s.assemblies
  present : ∀ f ∈ files, outcome.2.tree.HasFile (f.path output)
  elsewhere : ∀ q, ¬Touched output w files q → ∀ text,
    outcome.2.tree.node? q = some (.file text) ↔ w.tree.node? q = some (.file text)
  reported : ∀ report, outcome.1 = .ok report → report.files = files.map (·.path output)

/-- A place that is neither below the output directory nor that of the log file. -/
def Outside (output : Path) (w : World) (q : Place) : Prop :=
  (∀ p, w.logFile = some p → q ≠ p.goal w.tree.cwd) ∧
    ∀ rest, rest ≠ [] → q ≠ output.goal w.tree.cwd ++ rest

theorem not_touched_of_outside {output : Path} {w : World} {files : List StubFile} {q : Place}
    (hinside : ∀ f ∈ files, Path.Inside output (f.path output)) (h : Outside output w q) :
    ¬Touched output w files q := by
  rintro (⟨p, hlog, hq⟩ | ⟨f, hf, hq⟩)
  · exact h.1 p hlog hq
  · obtain ⟨rest, hne, hgoal⟩ := (hinside f hf).goal w.tree.cwd
    exact h.2 rest hne (hq.trans hgoal)

/-- Whatever becomes of a run, it writes inside its output directory just where the names of its
    files are confined, or return to the directory by themselves.  Then no file outside of it is
    made, changed or lost. -/
theorem generate_inside_iff (load : Loader) (s : Settings) (output : Path) (w : World) :
    ∃ files, Footprint load s output w ((Run.generate load s output).outcome w) files ∧
      ((∀ f ∈ files, Path.Inside output (f.path output)) ↔
        ∀ f ∈ files, f.Confined ∨ f.Returns output) ∧
      ((∀ f ∈ files, f.Confined ∨ f.Returns output) → ∀ q, Outside output w q → ∀ text,
        ((Run.generate load s output).outcome w).2.tree.node? q = some (.file text) ↔
          w.tree.node? q = some (.file text)) := by
  obtain ⟨files, hdrawn, hreach, hreported⟩ := Run.leaves_generate load s output w
  have hiff : (∀ f ∈ files, Path.Inside output (f.path output)) ↔
      ∀ f ∈ files, f.Confined ∨ f.Returns output :=
    forall₂_congr fun f _ => StubFile.inside_path_iff
  have helsewhere := fun q (hq : ¬Touched output w files q) => hreach.tree.node?_iff hq
  refine ⟨files, ⟨hdrawn, hreach.present, helsewhere, hreported⟩, hiff, fun hconfined q hq => ?_⟩
  exact hreach.tree.node?_iff (not_touched_of_outside (hiff.2 hconfined) hq)

/-! ### An assembly that goes up -/

/-- The file of a dump whose assembly is named by two points. -/
def climbingTree : Tree :=
  { cwd := ["work"]
    nodes := [(["work"], .directory), (["work", "game.json"], .file
      ("\x7b\"assembly\":\"..\",\"types\":[\x7b\"id\":\"N.A\",\"kind\":\"enum\"\x7d]\x7d"))] }

def climbingOutcome : Except Abort Report × World :=
  (Run.generate Dump.load
    { root := ⟨.relative, []⟩, assemblies := [⟨⟨.relative, ["game.json"]⟩, ["*"]⟩] }
    ⟨.relative, ["out"]⟩).outcome (World.start climbingTree none)

/-- Whether a run has come to its end with some files, and with a file at a place. -/
def climbEnds (outcome : Except Abort Report × World) (files : List Path) (at_ : Place) : Bool :=
  match outcome.1 with
  | .ok report => report.files == files && (outcome.2.tree.node? at_).isSome
  | .error _ => false

theorem exists_of_climbEnds {outcome : Except Abort Report × World} {files : List Path}
    {at_ : Place} (h : climbEnds outcome files at_ = true) :
    ∃ report w', outcome = (.ok report, w') ∧ report.files = files ∧
      (w'.tree.node? at_).isSome = true := by
  obtain ⟨e | report, w'⟩ := outcome
  · cases h
  · simp only [climbEnds, Bool.and_eq_true, beq_iff_eq] at h
    exact ⟨report, w', rfl, h.1, h.2⟩

/-- The file of the namespace stands beside the output directory. -/
theorem climbingOutcome_escapes : ∃ report w', climbingOutcome = (.ok report, w') ∧
    report.files = [⟨.relative, ["out", "..", "N.lua"]⟩, ⟨.relative, ["out", "global.lua"]⟩] ∧
    climbingTree.node? ["work", "N.lua"] = none ∧
    (w'.tree.node? ["work", "N.lua"]).isSome = true ∧
    ¬∀ p ∈ report.files, Path.Inside ⟨.relative, ["out"]⟩ p := by
  have hends : climbEnds climbingOutcome
      [⟨.relative, ["out", "..", "N.lua"]⟩, ⟨.relative, ["out", "global.lua"]⟩]
      ["work", "N.lua"] = true := by
    decide +kernel
  obtain ⟨report, w', hrun, hfiles, hthere⟩ := exists_of_climbEnds hends
  refine ⟨report, w', hrun, hfiles, by decide +kernel, hthere, fun hinside => ?_⟩
  -- Behind the directory the first path goes up again.
  obtain ⟨-, rest, -, hup, hparts⟩ := hinside _ (hfiles ▸ List.mem_cons_self)
  have hparts : ["out"] ++ ["..", "N.lua"] = ["out"] ++ rest := hparts
  have hrest := List.append_cancel_left hparts
  exact hup (hrest ▸ List.mem_cons_self)

end EmmyStubs
