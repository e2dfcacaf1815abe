import Mathlib.Data.List.Forall2
import EmmyStubs.Proofs.Sharing
import EmmyStubs.Proofs.Parts
import EmmyStubs.Run.Generate

/-! # Outcomes of runs

    What a step of a run that is not aborted has done.  A run keeps no log file here: messages
    go to the session alone, and the tree changes by writing stubs only.

    * **`outcome_bind_ok`**: one step after another.
    * **`Tree.Writes`**: some files were written in turn; what was written last at a place is
      there in the end (`Writes.found`).
    * **`writeGroups_ok`**: the files of some results.
    * **`writeIndex_ok`**: the file of the index, which is told by the namespaces and the template.
-/

namespace EmmyStubs

open EmmyStubs.Files

/-! ## §1. Files written in turn -/

namespace Files.Tree

/-- From one tree to another some texts were written and nothing else was changed. -/
inductive Writes : Tree → List (Path × String) → Tree → Prop
  | nil (t : Tree) : Writes t [] t
  | cons {t t₁ t' : Tree} {p : Path} {text : String} {rest : List (Path × String)}
      (h : Wrote p text t t₁) (hs : Writes t₁ rest t') : Writes t ((p, text) :: rest) t'

/-- The places of some files. -/
def goals (cwd : Place) (files : List (Path × String)) : List Place :=
  files.map fun e => e.1.goal cwd

theorem mem_goals_append {cwd q : Place} {files files' : List (Path × String)} :
    q ∈ goals cwd (files ++ files') ↔ q ∈ goals cwd files ∨ q ∈ goals cwd files' := by
  rw [goals, List.map_append]
  exact List.mem_append

namespace Writes

variable {t t' t'' : Tree} {files files' : List (Path × String)}

theorem append (h : Writes t files t') (h' : Writes t' files' t'') :
    Writes t (files ++ files') t'' := by
  induction h with
  | nil => exact h'
  | cons hw _ ih => exact .cons hw (ih h')

theorem grows (h : Writes t files t') : Grows (· ∈ goals t.cwd files) t t' := by
  induction h with
  | nil => exact .refl
  | @cons t t₁ t' p text rest hw _ ih =>
    refine (hw.grows.mono fun q hq => ?_).trans (ih.mono fun q hq => ?_)
    · exact hq ▸ List.mem_cons_self
    · rw [hw.grows.cwd] at hq
      exact List.mem_cons_of_mem _ hq

theorem within (h : Writes t files t') : Within t t' := by
  induction h with
  | nil => exact .refl
  | cons hw _ ih => exact hw.within.trans ih

theorem hasFile (h : Writes t files t') : ∀ e ∈ files, t'.HasFile e.1 := by
  induction h with
  | nil => simp
  | @cons t t₁ t' p text rest hw hs ih =>
    intro e he
    rcases List.mem_cons.1 he with rfl | he
    · exact hw.hasFile.of_within hs.within hs.grows
    · exact ih e he

/-- The last text that was written at a place is there. -/
theorem found (h : Writes t files t') {before after : List (Path × String)} {p : Path}
    {text : String} (hfiles : files = before ++ (p, text) :: after)
    (hlast : p.goal t.cwd ∉ goals t.cwd after) :
    t'.find p = .ok (p.goal t.cwd, .file text) := by
  induction before generalizing t files with
  | nil =>
    subst hfiles
    cases h with
    | cons hw hs =>
      refine hs.grows.find hw.found ?_
      rw [hw.grows.cwd]
      exact hlast
  | cons e before ih =>
    subst hfiles
    cases h with
    | cons hw hs =>
      rw [← hw.grows.cwd] at hlast ⊢
      exact ih hs rfl hlast

/-- Every place of a list of files has a last file there. -/
theorem exists_last {cwd q : Place} {files : List (Path × String)} (h : q ∈ goals cwd files) :
    ∃ before p text after, files = before ++ (p, text) :: after ∧ p.goal cwd = q ∧
      q ∉ goals cwd after := by
  induction files with
  | nil => simp [goals] at h
  | cons e files ih =>
    -- If no file behind the first one leads to `q`, the first one is the last.
    by_cases hq : q ∈ goals cwd files
    · obtain ⟨before, p, text, after, rfl, hp, hafter⟩ := ih hq
      exact ⟨e :: before, p, text, after, rfl, hp, hafter⟩
    · rw [goals, List.map_cons, List.mem_cons] at h
      exact ⟨[], e.1, e.2, files, rfl, (h.resolve_right hq).symm, hq⟩

/-- Files that are not written over afterwards come out alike, whatever was written before. -/
theorem found_same {u u' : Tree} {before after before' after' mine : List (Path × String)}
    {p : Path} (h : Writes t (before ++ mine ++ after) t')
    (hu : Writes u (before' ++ mine ++ after') u') (hcwd : u.cwd = t.cwd)
    (hp : p ∈ mine.map (·.1)) (hafter : p.goal t.cwd ∉ goals t.cwd after)
    (hafter' : p.goal t.cwd ∉ goals t.cwd after') :
    ∃ text, t'.find p = .ok (p.goal t.cwd, .file text) ∧
      u'.find p = .ok (p.goal t.cwd, .file text) := by
  obtain ⟨e, he, rfl⟩ := List.mem_map.1 hp
  have hgoal : e.1.goal t.cwd ∈ goals t.cwd mine := List.mem_map.2 ⟨e, he, rfl⟩
  obtain ⟨front, p', text, back, hmine, hp', hback⟩ := exists_last hgoal
  -- Either tree has at this place what was written there last.
  have hend : ∀ {v v' : Tree} {pre post : List (Path × String)},
      Writes v (pre ++ mine ++ post) v' → v.cwd = t.cwd → e.1.goal t.cwd ∉ goals t.cwd post →
      v'.find e.1 = .ok (e.1.goal t.cwd, .file text) := by
    intro v v' pre post hv hvcwd hpost
    have hsplit : pre ++ mine ++ post = (pre ++ front) ++ (p', text) :: (back ++ post) := by
      rw [hmine]
      simp
    have hlast : p'.goal v.cwd ∉ goals v.cwd (back ++ post) := by
      rw [hvcwd, hp', mem_goals_append]
      exact fun hmem => hmem.elim hback hpost
    have hfound := hv.found hsplit hlast
    -- `p'` may be another path to the place; the file is found under either.
    rw [hvcwd, hp'] at hfound
    obtain ⟨⟨q, old, hfind⟩, -⟩ := hv.hasFile e (by simp [he])
    have hloc := (find_eq_ok.1 hfind).1
    have hq := locate_eq_goal hloc
    rw [hv.grows.cwd, hvcwd] at hq
    exact find_eq_ok.2 ⟨hq ▸ hloc, (find_eq_ok.1 hfound).2⟩
  exact ⟨text, hend h rfl hafter, hend hu hcwd hafter'⟩

end Writes

end Files.Tree

namespace Run

variable {α β : Type}

/-! ## §2. Steps -/

theorem outcome_pure_ok {a b : α} {w w' : World} :
    (pure a : Run α).outcome w = (.ok b, w') ↔ a = b ∧ w = w' := by
  show (Except.ok a, w) = (Except.ok b, w') ↔ _
  rw [Prod.mk.injEq, Except.ok.injEq]

/-- An aborted step ends the run, and keeps the world that it has reached. -/
theorem outcome_bind (x : Run α) (f : α → Run β) (w : World) :
    (x >>= f).outcome w = match x.outcome w with
      | (.ok a, w') => (f a).outcome w'
      | (.error e, w') => (.error e, w') := by
  show (match x.outcome w with
    | (a, w') => StateT.run (ExceptT.bindCont f a) w') = _
  rcases x.outcome w with ⟨_ | _, w'⟩ <;> rfl

theorem outcome_bind_ok {x : Run α} {f : α → Run β} {b : β} {w w'' : World} :
    (x >>= f).outcome w = (.ok b, w'') ↔
      ∃ a w', x.outcome w = (.ok a, w') ∧ (f a).outcome w' = (.ok b, w'') := by
  rw [outcome_bind]
  rcases x.outcome w with ⟨e | a, w'⟩
  · simp
  · simp

theorem outcome_files_ok {t : Tree} {w w' : World} :
    files.outcome w = (.ok t, w') ↔ w.tree = t ∧ w = w' :=
  outcome_pure_ok

theorem outcome_need_ok {x : Except Abort α} {a : α} {w w' : World} :
    (need x).outcome w = (.ok a, w') ↔ x = .ok a ∧ w' = w := by
  cases x with
  | error e =>
    show (Except.error e, w) = (Except.ok a, w') ↔ _
    simp
  | ok b =>
    show (Except.ok b, w) = (Except.ok a, w') ↔ _
    rw [Prod.mk.injEq]
    exact and_congr_right fun _ => eq_comm

/-- A fault of a file operation is passed on as it is. -/
theorem liftM_eq_ok {x : Except FileError α} {a : α} :
    (liftM x : Except Abort α) = .ok a ↔ x = .ok a := by
  cases x with
  | error e =>
    constructor
    · intro h
      cases h
    · intro h
      cases h
  | ok b =>
    constructor
    · intro h
      cases h
      rfl
    · intro h
      cases h
      rfl

theorem outcome_change (f : Tree → Except FileError Tree) (w : World) :
    (change f).outcome w = match f w.tree with
      | .ok tree => (.ok (), { w with tree })
      | .error e => (.error (.file e), w) := by
  have hget : (get : Run World).outcome w = (.ok w, w) := rfl
  unfold change
  rw [outcome_bind, hget]
  dsimp only
  cases f w.tree with
  | error e => rfl
  | ok tree => rfl

theorem outcome_change_ok {f : Tree → Except FileError Tree} {u : Unit} {w w' : World} :
    (change f).outcome w = (.ok u, w') ↔ ∃ tree, f w.tree = .ok tree ∧ w' = { w with tree } := by
  rw [outcome_change]
  cases f w.tree with
  | error e => simp
  | ok tree =>
    rw [Prod.mk.injEq, and_iff_right rfl, eq_comm]
    simp only [Except.ok.injEq, exists_eq_left']

/-- Without a log file an action changes the session only. -/
theorem outcome_perform {x : Action α} {w : World} (hw : w.logFile = none) :
    (perform x).outcome w
      = (.ok (x.run w.session).1, { w with session := (x.run w.session).2 }) := by
  show (Except.ok (x.run w.session).1, _) = _
  simp [World.keep, hw]

theorem perform_ok {x : Action α} {a : α} {w w' : World}
    (h : (perform x).outcome w = (.ok a, w')) (hw : w.logFile = none) :
    a = (x.run w.session).1 ∧ w' = { w with session := (x.run w.session).2 } := by
  rw [outcome_perform hw, Prod.mk.injEq, Except.ok.injEq] at h
  exact ⟨h.1.symm, h.2.symm⟩

/-- A step that leaves both caches alone. -/
structure SameCaches (w w' : World) : Prop where
  logFile : w'.logFile = none
  names : w'.session.names = w.session.names
  mappings : w'.session.mappings = w.session.mappings

theorem SameCaches.trans {w w' w'' : World} (h : SameCaches w w') (h' : SameCaches w' w'') :
    SameCaches w w'' :=
  ⟨h'.logFile, h'.names.trans h.names, h'.mappings.trans h.mappings⟩

theorem report_ok {level : Log.Level} {source : Log.Source} {message : String} {u : Unit}
    {w w' : World} (h : (report level source message).outcome w = (.ok u, w'))
    (hw : w.logFile = none) :
    SameCaches w w' ∧ w'.tree = w.tree := by
  obtain ⟨-, rfl⟩ := perform_ok h hw
  exact ⟨⟨hw, rfl, rfl⟩, rfl⟩

/-! ## §3. Writing -/

theorem writeFile_ok {path : Path} {text : String} {u : Unit} {w w' : World}
    (h : (writeFile path text).outcome w = (.ok u, w')) (hw : w.logFile = none) :
    SameCaches w w' ∧ Tree.Wrote path text w.tree w'.tree := by
  unfold writeFile at h
  obtain ⟨_, w₁, hreport, h⟩ := outcome_bind_ok.1 h
  obtain ⟨_, w₂, hmake, h⟩ := outcome_bind_ok.1 h
  obtain ⟨hcaches, htree⟩ := report_ok hreport hw
  obtain ⟨t₂, ht₂, rfl⟩ := outcome_change_ok.1 hmake
  obtain ⟨t₃, ht₃, rfl⟩ := outcome_change_ok.1 h
  rw [htree] at ht₂
  exact ⟨⟨hcaches.logFile, hcaches.names, hcaches.mappings⟩, Tree.wrote_of_ok ht₂ ht₃⟩

/-- The file in which a result was written, `Reached` holding of the tree that the template was
    read from. -/
structure FileOf (s : Settings) (output : Path) (assembly : String) (Reached : Tree → Prop)
    (r : GroupResult) (file : Path × String) : Prop where
  path : file.1 = Output.namespacePath output assembly r.space
  text : ∃ t, Reached t ∧ file.2 = Output.namespaceText (Output.templateText t s.templates
    Output.namespaceTemplateName Output.namespaceTemplate) assembly r.space r.declarations

variable {s : Settings} {output : Path} {assembly : String}

theorem FileOf.mono {Reached Reached' : Tree → Prop} {r : GroupResult} {file : Path × String}
    (h : FileOf s output assembly Reached r file) (ht : ∀ t, Reached t → Reached' t) :
    FileOf s output assembly Reached' r file := by
  obtain ⟨t, hreached, htext⟩ := h.text
  exact ⟨h.path, t, ht t hreached, htext⟩

theorem writeGroup_ok {r : GroupResult} {path : Path} {w w' : World}
    (h : (writeGroup s output assembly r).outcome w = (.ok path, w')) (hw : w.logFile = none) :
    SameCaches w w' ∧ path = Output.namespacePath output assembly r.space ∧
      ∃ text, FileOf s output assembly (· = w.tree) r (path, text) ∧
        Tree.Wrote path text w.tree w'.tree := by
  unfold writeGroup at h
  obtain ⟨t, w₁, hfiles, h⟩ := outcome_bind_ok.1 h
  obtain ⟨rfl, rfl⟩ := outcome_files_ok.1 hfiles
  obtain ⟨_, w₂, hwrite, h⟩ := outcome_bind_ok.1 h
  obtain ⟨rfl, rfl⟩ := outcome_pure_ok.1 h
  obtain ⟨hcaches, hwrote⟩ := writeFile_ok hwrite hw
  exact ⟨hcaches, rfl, _, ⟨rfl, _, rfl, rfl⟩, hwrote⟩

/-- The files of the results of a dump, written in turn. -/
theorem writeGroups_ok {rs : List GroupResult} {paths : List Path} {w w' : World}
    (h : (writeGroups s output assembly rs).outcome w = (.ok paths, w')) (hw : w.logFile = none) :
    SameCaches w w' ∧ ∃ files : List (Path × String), paths = files.map (·.1) ∧
      Tree.Writes w.tree files w'.tree ∧
      List.Forall₂ (FileOf s output assembly
        (Tree.Grows (· ∈ Tree.goals w.tree.cwd files) w.tree)) rs files := by
  induction rs generalizing paths w with
  | nil =>
    unfold writeGroups at h
    obtain ⟨rfl, rfl⟩ := outcome_pure_ok.1 h
    exact ⟨⟨hw, rfl, rfl⟩, [], rfl, .nil _, .nil⟩
  | cons r rs ih =>
    unfold writeGroups at h
    obtain ⟨path, w₁, hfirst, h⟩ := outcome_bind_ok.1 h
    obtain ⟨paths', w₂, hrest, h⟩ := outcome_bind_ok.1 h
    obtain ⟨rfl, rfl⟩ := outcome_pure_ok.1 h
    obtain ⟨hcaches, rfl, text, hfile, hwrote⟩ := writeGroup_ok hfirst hw
    obtain ⟨hcaches', files, rfl, hwrites, hfiles⟩ := ih hrest hcaches.logFile
    refine ⟨hcaches.trans hcaches', (_, text) :: files, rfl, .cons hwrote hwrites, .cons ?_ ?_⟩
    · exact hfile.mono fun t ht => ht ▸ .refl
    · -- What was reached after the first file was reached with it.
      refine hfiles.imp fun r' file hfile' => hfile'.mono fun t ht => ?_
      refine (hwrote.grows.mono fun q hq => ?_).trans (ht.mono fun q hq => ?_)
      · exact hq ▸ List.mem_cons_self
      · rw [hwrote.grows.cwd] at hq
        exact List.mem_cons_of_mem _ hq

/-- The template of the index, as the files are. -/
def indexTemplate (s : Settings) (t : Tree) : String :=
  Output.templateText t s.templates Output.indexTemplateName Output.indexTemplate

theorem writeIndex_ok {spaces : List (Option String)} {path : Path} {w w' : World}
    (h : (writeIndex s output spaces).outcome w = (.ok path, w')) (hw : w.logFile = none) :
    SameCaches w w' ∧ path = Output.indexPath output ∧
      Tree.Wrote path (Output.indexText (indexTemplate s w.tree) spaces) w.tree w'.tree := by
  unfold writeIndex at h
  obtain ⟨t, w₁, hfiles, h⟩ := outcome_bind_ok.1 h
  obtain ⟨rfl, rfl⟩ := outcome_files_ok.1 hfiles
  obtain ⟨_, w₂, hwrite, h⟩ := outcome_bind_ok.1 h
  obtain ⟨rfl, rfl⟩ := outcome_pure_ok.1 h
  obtain ⟨hcaches, hwrote⟩ := writeFile_ok hwrite hw
  exact ⟨hcaches, rfl, hwrote⟩

end Run

end EmmyStubs
