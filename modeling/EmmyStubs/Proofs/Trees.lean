import Mathlib.Data.List.Basic
import EmmyStubs.Files.Tree

/-! # Changes of a file tree

    * **`Path.goal`**: the place that a path leads to, told from the path alone.  Following the
      path in a tree ends there or fails (`locate_eq_goal`).
    * **`Tree.Grows`**: directories stay, and files stay as they are, apart from some that may
      be written.  A path that leads somewhere leads there ever after.
    * **`Tree.AddsDirectories`**: what making directories comes to; a tree grows by it.
    * **`Tree.Wrote`**: what making directories and writing a file comes to.
-/

namespace EmmyStubs.Files

/-! ## §1. Where a path leads -/

/-- One part further. -/
def Place.further (at_ : Place) (part : String) : Place :=
  if part = ".." then at_.dropLast else at_ ++ [part]

/-- The place that a path leads to from the directory `cwd`. -/
def Path.goal (p : Path) (cwd : Place) : Place :=
  p.parts.foldl Place.further (if p.root = .relative then cwd else [])

namespace Tree

variable {t t' : Tree} {p : Path} {q : Place}

theorem step_eq_further {at_ : Place} {part : String} (h : t.step at_ part = .ok q) :
    q = at_.further part ∧ t.node? at_ = some .directory := by
  unfold step at h
  unfold Place.further
  cases hn : t.node? at_ with
  | none => rw [hn] at h; cases h
  | some n =>
    rw [hn] at h
    cases n with
    | file text => cases h
    | directory =>
      refine ⟨?_, rfl⟩
      -- Upwards the place is cut; any other part has to be short enough to be put behind it.
      by_cases hup : part = ".."
      · simp only [if_pos hup, Except.ok.injEq] at h ⊢
        exact h.symm
      · simp only [if_neg hup] at h ⊢
        split at h
        · cases h
        · exact (Except.ok.inj h).symm

theorem foldlM_step_eq {parts : List String} {at_ : Place}
    (h : parts.foldlM t.step at_ = .ok q) : q = parts.foldl Place.further at_ := by
  induction parts generalizing at_ with
  | nil => exact (Except.ok.inj h).symm
  | cons part parts ih =>
    rw [List.foldlM_cons] at h
    cases hstep : t.step at_ part with
    | error e => rw [hstep] at h; cases h
    | ok at' =>
      rw [hstep] at h
      rw [List.foldl_cons, ← (step_eq_further hstep).1]
      exact ih h

/-- A path that can be followed leads to its goal. -/
theorem locate_eq_goal (h : t.locate p = .ok q) : q = p.goal t.cwd := by
  unfold locate at h
  split at h
  · cases h
  · split at h
    · cases h
    · split at h
      · next at_ hfold =>
        rw [← Except.ok.inj h]
        exact foldlM_step_eq hfold
      · cases h

/-! ## §2. Putting a node somewhere -/

theorem node?_set (at_ : Place) (n : Node) :
    (t.set at_ n).node? q = if q = [] then some .directory else if q = at_ then some n
      else t.node? q := by
  unfold node? set
  -- The root is a directory whatever the nodes say, and the new node stands before the others.
  by_cases hroot : q = []
  · simp [hroot]
  by_cases heq : q = at_
  · simp [heq]
  have hne : (at_ == q) = false := by simpa using fun h => heq h.symm
  have hfilter : (fun e : Place × Node => decide ((e.1 != at_) = true ∧ (e.1 == q) = true))
      = fun e => e.1 == q := by
    funext e
    by_cases he : e.1 = q
    · simp [he, heq]
    · simp [he]
  simp only [if_neg hroot, if_neg heq, List.find?_cons, hne, List.find?_filter, hfilter]

theorem node?_nil : t.node? [] = some .directory := rfl

/-! ## §3. Growth -/

/-- Nothing is lost of a tree, but that files at some places may be written. -/
structure Grows (written : Place → Prop) (t t' : Tree) : Prop where
  cwd : t'.cwd = t.cwd
  directories : ∀ at_, t.node? at_ = some .directory → t'.node? at_ = some .directory
  files : ∀ at_ text, ¬written at_ → t.node? at_ = some (.file text) →
    t'.node? at_ = some (.file text)

namespace Grows

variable {written written' : Place → Prop} {t'' : Tree}

theorem refl : Grows written t t :=
  ⟨rfl, fun _ h => h, fun _ _ _ h => h⟩

theorem mono (h : Grows written t t') (hw : ∀ at_, written at_ → written' at_) :
    Grows written' t t' :=
  ⟨h.cwd, h.directories, fun at_ text hn => h.files at_ text fun hwr => hn (hw at_ hwr)⟩

theorem trans (h : Grows written t t') (h' : Grows written t' t'') : Grows written t t'' :=
  ⟨h'.cwd.trans h.cwd, fun at_ hd => h'.directories at_ (h.directories at_ hd),
    fun at_ text hn hf => h'.files at_ text hn (h.files at_ text hn hf)⟩

/-- A new directory. -/
theorem set_directory {at_ : Place} (hnone : t.node? at_ = none) :
    Grows written t (t.set at_ .directory) where
  cwd := rfl
  directories := by
    intro q hq
    rw [node?_set, hq]
    repeat' split
    all_goals rfl
  files := by
    intro q text _ hq
    -- Nothing was at the new place, so the file is at another one.
    have hne : q ≠ at_ := fun heq => by rw [heq, hnone] at hq; cases hq
    have hroot : q ≠ [] := fun heq => by rw [heq, node?_nil] at hq; cases hq
    rw [node?_set, if_neg hroot, if_neg hne, hq]

/-- A file that is written, where no directory is. -/
theorem set_file {at_ : Place} {text : String} (hdir : t.node? at_ ≠ some .directory) :
    Grows (· = at_) t (t.set at_ (.file text)) where
  cwd := rfl
  directories := by
    intro q hq
    -- No directory was at the place of the file, so the one at hand is elsewhere.
    have hne : q ≠ at_ := fun heq => hdir (heq ▸ hq)
    rw [node?_set, if_neg hne, hq]
    split <;> rfl
  files := by
    intro q old hne hq
    have hroot : q ≠ [] := fun heq => by rw [heq, node?_nil] at hq; cases hq
    rw [node?_set, if_neg hroot, if_neg hne, hq]

theorem step {at_ : Place} {part : String} (h : Grows written t t')
    (hs : t.step at_ part = .ok q) : t'.step at_ part = .ok q := by
  have hdir := (step_eq_further hs).2
  unfold Tree.step at hs ⊢
  rw [hdir] at hs
  rw [h.directories at_ hdir]
  exact hs

theorem foldlM_step {parts : List String} {at_ : Place} (h : Grows written t t')
    (hs : parts.foldlM t.step at_ = .ok q) : parts.foldlM t'.step at_ = .ok q := by
  induction parts generalizing at_ with
  | nil => exact hs
  | cons part parts ih =>
    rw [List.foldlM_cons] at hs ⊢
    cases hstep : t.step at_ part with
    | error e => rw [hstep] at hs; cases hs
    | ok at' =>
      rw [hstep] at hs
      rw [h.step hstep]
      exact ih hs

/-- A path that can be followed can be followed in a grown tree. -/
theorem locate (h : Grows written t t') (hq : t.locate p = .ok q) : t'.locate p = .ok q := by
  unfold Tree.locate at hq ⊢
  split at hq
  · cases hq
  · next hnull =>
    rw [if_neg hnull]
    split at hq
    · cases hq
    · next hlong =>
      rw [if_neg hlong, h.cwd]
      split at hq
      · next at_ hfold =>
        rw [h.foldlM_step hfold]
        exact hq
      · cases hq

end Grows

/-- What is found at the end of a path. -/
theorem find_eq_ok {n : Node} :
    t.find p = .ok (q, n) ↔ t.locate p = .ok q ∧ t.node? q = some n := by
  unfold find
  cases hloc : t.locate p with
  | error e => simp [bind, Except.bind]
  | ok at_ =>
    simp only [bind, Except.bind, Except.ok.injEq]
    cases hn : t.node? at_ with
    | none =>
      constructor
      · intro h
        cases h
      · rintro ⟨rfl, h⟩
        rw [hn] at h
        cases h
    | some n' =>
      simp only [pure, Except.pure, Except.ok.injEq, Prod.mk.injEq]
      constructor
      · rintro ⟨rfl, rfl⟩
        exact ⟨rfl, hn⟩
      · rintro ⟨rfl, h⟩
        rw [hn] at h
        exact ⟨rfl, Option.some.inj h⟩

/-- A file that is not written is found as it was. -/
theorem Grows.find {written : Place → Prop} {text : String} (h : Grows written t t')
    (hf : t.find p = .ok (q, .file text)) (hq : ¬written q) :
    t'.find p = .ok (q, .file text) := by
  obtain ⟨hloc, hnode⟩ := find_eq_ok.1 hf
  exact find_eq_ok.2 ⟨h.locate hloc, h.files q text hq hnode⟩

/-! ## §4. Operations -/

/-- Directories were put where nothing was, and nothing else was changed. -/
inductive AddsDirectories : Tree → Tree → Prop
  | refl (t : Tree) : AddsDirectories t t
  | set {t t' : Tree} {at_ : Place} (h : AddsDirectories t t') (hnone : t'.node? at_ = none) :
      AddsDirectories t (t'.set at_ .directory)

theorem AddsDirectories.trans {t'' : Tree} (h : AddsDirectories t t')
    (h' : AddsDirectories t' t'') : AddsDirectories t t'' := by
  induction h' with
  | refl => exact h
  | set _ hnone ih => exact .set ih hnone

theorem AddsDirectories.grows {written : Place → Prop} (h : AddsDirectories t t') :
    Grows written t t' := by
  induction h with
  | refl => exact .refl
  | set _ hnone ih => exact ih.trans (.set_directory hnone)

theorem makeDirectory_adds (h : t.makeDirectory p = .ok t') : AddsDirectories t t' := by
  unfold makeDirectory at h
  cases hloc : t.locate p with
  | error e => rw [hloc] at h; cases h
  | ok at_ =>
    rw [hloc] at h
    simp only [bind, Except.bind] at h
    split at h
    · cases h
    · next hnone =>
      rw [← Except.ok.inj h]
      exact .set (.refl t) hnone

theorem ensureDirectory_adds (h : t.ensureDirectory p = .ok t') : AddsDirectories t t' := by
  unfold ensureDirectory at h
  split at h
  · next t₁ ht₁ =>
    rw [← Except.ok.inj h]
    exact makeDirectory_adds ht₁
  · cases h
  · cases h
  · next e _ _ _ =>
    -- Something was in the way; if that is a directory the tree stays as it is.
    cases hdir : t.isDirectory? p with
    | error e' => rw [hdir] at h; cases h
    | ok b =>
      rw [hdir] at h
      simp only [bind, Except.bind] at h
      split at h
      · rw [← Except.ok.inj h]
        exact .refl t
      · cases h

/-- Making a directory and those that lead to it only adds directories. -/
theorem makePath_adds {fuel : Nat} (h : makePath fuel t p = .ok t') : AddsDirectories t t' := by
  induction fuel generalizing t t' p with
  | zero => exact ensureDirectory_adds h
  | succ fuel ih =>
    unfold makePath at h
    split at h
    · split at h
      · cases h
      · -- A parent was missing: it was made first.
        cases hparent : makePath fuel t p.parent with
        | error e => rw [hparent] at h; cases h
        | ok t₁ =>
          rw [hparent] at h
          exact (ih hparent).trans (ensureDirectory_adds h)
    · exact ensureDirectory_adds h

theorem makeDirectories_adds (h : t.makeDirectories p = .ok t') : AddsDirectories t t' :=
  makePath_adds h

theorem makeDirectory_found (h : t.makeDirectory p = .ok t') :
    ∃ at_, t'.find p = .ok (at_, .directory) := by
  have hgrows : Grows (fun _ => False) t t' := (makeDirectory_adds h).grows
  unfold makeDirectory at h
  cases hloc : t.locate p with
  | error e => rw [hloc] at h; cases h
  | ok at_ =>
    rw [hloc] at h
    simp only [bind, Except.bind] at h
    split at h
    · cases h
    · refine ⟨at_, find_eq_ok.2 ⟨hgrows.locate hloc, ?_⟩⟩
      rw [← Except.ok.inj h, node?_set]
      split
      · rfl
      · rw [if_pos rfl]

theorem ensureDirectory_found (h : t.ensureDirectory p = .ok t') :
    ∃ at_, t'.find p = .ok (at_, .directory) := by
  unfold ensureDirectory at h
  split at h
  · next t₁ ht₁ =>
    rw [← Except.ok.inj h]
    exact makeDirectory_found ht₁
  · cases h
  · cases h
  · next e _ _ _ =>
    cases hdir : t.isDirectory? p with
    | error e' => rw [hdir] at h; cases h
    | ok b =>
      rw [hdir] at h
      simp only [bind, Except.bind] at h
      split at h
      · next hb =>
        rw [← Except.ok.inj h]
        unfold isDirectory? holds? at hdir
        split at hdir
        · next at_ n hfind =>
          have hn : n = .directory := by simpa [hb] using Except.ok.inj hdir
          exact ⟨at_, hn ▸ hfind⟩
        · cases hdir
        · rw [hb] at hdir
          cases hdir
      · cases h

/-- A directory that was made is there. -/
theorem makeDirectories_found (h : t.makeDirectories p = .ok t') :
    ∃ at_, t'.find p = .ok (at_, .directory) := by
  unfold makeDirectories at h
  cases hfuel : p.parts.length with
  | zero =>
    rw [hfuel] at h
    exact ensureDirectory_found h
  | succ fuel =>
    rw [hfuel] at h
    unfold makePath at h
    split at h
    · split at h
      · cases h
      · cases hparent : makePath fuel t p.parent with
        | error e => rw [hparent] at h; cases h
        | ok t₁ =>
          rw [hparent] at h
          exact ensureDirectory_found h
    · exact ensureDirectory_found h

/-- A directory is found as it was. -/
theorem Grows.find_directory {written : Place → Prop} (h : Grows written t t')
    (hf : t.find p = .ok (q, .directory)) : t'.find p = .ok (q, .directory) := by
  obtain ⟨hloc, hnode⟩ := find_eq_ok.1 hf
  exact find_eq_ok.2 ⟨h.locate hloc, h.directories q hnode⟩

theorem write_ok {text : String} (h : t.write p text = .ok t') :
    Grows (· = p.goal t.cwd) t t' ∧ t'.find p = .ok (p.goal t.cwd, .file text) := by
  unfold write at h
  cases hloc : t.locate p with
  | error e => rw [hloc] at h; cases h
  | ok at_ =>
    rw [hloc] at h
    simp only [bind, Except.bind] at h
    split at h
    · cases h
    · next hdir =>
      have ht := Except.ok.inj h
      have hgoal := locate_eq_goal hloc
      have hgrows : Grows (· = at_) t t' := ht ▸ .set_file hdir
      have hroot : at_ ≠ [] := fun heq => hdir (heq ▸ node?_nil)
      -- The path leads to its goal after the writing as before.
      refine ⟨hgoal ▸ hgrows, find_eq_ok.2 ⟨hgoal ▸ hgrows.locate hloc, ?_⟩⟩
      rw [← hgoal, ← ht, node?_set, if_neg hroot, if_pos rfl]

/-- A text was written at the end of a path, with the directories that lead to it. -/
structure Wrote (p : Path) (text : String) (t t' : Tree) : Prop where
  grows : Grows (· = p.goal t.cwd) t t'
  found : t'.find p = .ok (p.goal t.cwd, .file text)
  parent : ∃ at_, t'.find p.parent = .ok (at_, .directory)

theorem wrote_of_ok {text : String} {t₁ : Tree} (hmake : t.makeDirectories p.parent = .ok t₁)
    (hwrite : t₁.write p text = .ok t') : Wrote p text t t' := by
  have hmade : Grows (· = p.goal t.cwd) t t₁ := (makeDirectories_adds hmake).grows
  obtain ⟨hgrows, hfound⟩ := write_ok hwrite
  obtain ⟨at_, hparent⟩ := makeDirectories_found hmake
  have hcwd := hmade.cwd
  exact ⟨hmade.trans (hcwd ▸ hgrows), hcwd ▸ hfound, at_, hgrows.find_directory hparent⟩

end Tree

end EmmyStubs.Files
