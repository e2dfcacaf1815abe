import EmmyStubs.Proofs.Trees

/-! # Parts of a file tree

    What can be written into a larger tree can be written into a smaller one:

    * **`Tree.Within`**: whatever there is in a tree is in another one, and of the same kind.
    * **`makeDirectories_within`**: a directory of the larger tree can be made in the smaller one.
    * **`write_within`**: so can a file.
-/

namespace EmmyStubs.Files

/-! ## §1. Parents -/

/-- A path without parts is its own parent. -/
theorem Path.parent_of_nil {p : Path} (h : p.parts = []) : p.parent = p := by
  obtain ⟨root, parts⟩ := p
  have hparts : parts = [] := h
  rw [hparts]
  rfl

theorem Path.toString_eq (p : Path) :
    p.parts = [] ∧ p.toString = "." ∨ p.toString = p.root.text ++ "/".intercalate p.parts := by
  unfold toString
  split
  · next h => exact .inl ⟨h, rfl⟩
  · exact .inr rfl

/-- The text of a parent is not longer, unless it is a single point. -/
theorem Path.utf8ByteSize_parent (p : Path) :
    p.parent.toString.utf8ByteSize ≤ max 1 p.toString.utf8ByteSize := by
  -- The text of fewer parts between the same separators.
  have hshorter : ("/".intercalate p.parts.dropLast).utf8ByteSize
      ≤ ("/".intercalate p.parts).utf8ByteSize := by
    rcases List.eq_nil_or_concat' p.parts with hnil | ⟨front, last, hparts⟩
    · simp [hnil]
    · rw [hparts, List.dropLast_concat]
      by_cases hfront : front = []
      · simp [hfront]
      · rw [String.intercalate_append_of_ne_nil hfront (by simp)]
        simp only [String.utf8ByteSize_append]
        omega
  rcases p.parent.toString_eq with ⟨-, hpoint⟩ | hparent
  · rw [hpoint]
    exact Nat.le_max_left _ _
  · rcases p.toString_eq with ⟨hnil, -⟩ | hwhole
    · rw [Path.parent_of_nil hnil]
      exact Nat.le_max_right _ _
    · have hparent : p.parent.toString = p.root.text ++ "/".intercalate p.parts.dropLast := hparent
      rw [hparent, hwhole, String.utf8ByteSize_append, String.utf8ByteSize_append]
      omega

namespace Tree

variable {t T : Tree} {p : Path} {q : Place}

theorem locate_eq_ok : t.locate p = .ok q ↔ hasNull p = false ∧
    p.toString.utf8ByteSize ≤ longest ∧
    p.parts.foldlM t.step (if p.root = .relative then t.cwd else []) = .ok q := by
  unfold locate
  split
  · next h => simp [h, throw, throwThe, MonadExceptOf.throw]
  · next hnull =>
    split
    · next hlong =>
      simp only [throw, throwThe, MonadExceptOf.throw, reduceCtorEq, false_iff]
      rintro ⟨-, hshort, -⟩
      omega
    · next hlong =>
      have hnull : hasNull p = false := by simpa using hnull
      have hshort : p.toString.utf8ByteSize ≤ longest := by omega
      simp only [hnull, hshort, true_and]
      split
      · next at_ hfold =>
        rw [hfold]
        simp [pure, Except.pure]
      · next fault hfold =>
        rw [hfold]
        simp [throw, throwThe, MonadExceptOf.throw]

/-- What leads somewhere leads through a directory. -/
theorem find_parent (h : t.locate p = .ok q) (hp : p.parts ≠ []) :
    ∃ at_, t.find p.parent = .ok (at_, .directory) := by
  obtain ⟨hnull, hshort, hfold⟩ := locate_eq_ok.1 h
  obtain ⟨front, last, hparts⟩ := (List.eq_nil_or_concat' p.parts).resolve_left hp
  have hfront : p.parent.parts = front := by rw [Path.parent, hparts, List.dropLast_concat]
  rw [hparts, List.foldlM_append] at hfold
  cases hat : front.foldlM t.step (if p.root = .relative then t.cwd else []) with
  | error e => rw [hat] at hfold; cases hfold
  | ok at_ =>
    rw [hat] at hfold
    have hfold : [last].foldlM t.step at_ = .ok q := hfold
    have hstep : t.step at_ last = .ok q := by simpa using hfold
    -- The parent has fewer parts and a shorter text, so it can be followed as well.
    refine ⟨at_, find_eq_ok.2 ⟨locate_eq_ok.2 ⟨?_, ?_, ?_⟩, (step_eq_further hstep).2⟩⟩
    · rw [hasNull, hparts, List.any_append, Bool.or_eq_false_iff] at hnull
      rw [hasNull, hfront]
      exact hnull.1
    · have := p.utf8ByteSize_parent
      unfold longest at hshort ⊢
      omega
    · rw [hfront]
      exact hat

/-! ## §2. Smaller trees -/

/-- Whatever there is in `t` is there in `T`, and of the same kind. -/
structure Within (t T : Tree) : Prop where
  cwd : t.cwd = T.cwd
  directories : ∀ at_, t.node? at_ = some .directory → T.node? at_ = some .directory
  files : ∀ at_ text, t.node? at_ = some (.file text) → ∃ text', T.node? at_ = some (.file text')

namespace Within

theorem refl : Within t t :=
  ⟨rfl, fun _ h => h, fun _ text h => ⟨text, h⟩⟩

theorem trans {t' : Tree} (h : Within t t') (h' : Within t' T) : Within t T where
  cwd := h.cwd.trans h'.cwd
  directories := fun at_ hat => h'.directories at_ (h.directories at_ hat)
  files := by
    intro at_ text hat
    obtain ⟨text', hat'⟩ := h.files at_ text hat
    exact h'.files at_ text' hat'

/-- Where the larger tree has a directory, the smaller one has it too or has nothing. -/
theorem directory_or_none (h : Within t T) (hT : T.node? q = some .directory) :
    t.node? q = some .directory ∨ t.node? q = none := by
  cases hn : t.node? q with
  | none => exact .inr rfl
  | some n =>
    cases n with
    | directory => exact .inl rfl
    | file text =>
      obtain ⟨text', htext⟩ := h.files q text hn
      rw [hT] at htext
      cases htext

theorem set_directory (h : Within t T) (hT : T.node? q = some .directory) :
    Within (t.set q .directory) T where
  cwd := h.cwd
  directories := by
    intro at_ hat
    by_cases heq : at_ = q
    · rw [heq, hT]
    · rw [node?_set, if_neg heq] at hat
      split at hat
      · next hroot => rw [hroot, node?_nil]
      · exact h.directories at_ hat
  files := by
    intro at_ text hat
    rw [node?_set] at hat
    split at hat
    · cases hat
    · split at hat
      · cases hat
      · exact h.files at_ text hat

theorem set_file {text text' : String} (h : Within t T) (hT : T.node? q = some (.file text')) :
    Within (t.set q (.file text)) T where
  cwd := h.cwd
  directories := by
    intro at_ hat
    rw [node?_set] at hat
    split at hat
    · next hroot => rw [hroot, node?_nil]
    · split at hat
      · cases hat
      · exact h.directories at_ hat
  files := by
    intro at_ old hat
    by_cases heq : at_ = q
    · exact ⟨text', heq ▸ hT⟩
    · rw [node?_set, if_neg heq] at hat
      split at hat
      · cases hat
      · exact h.files at_ old hat

theorem step {at_ : Place} {part : String} (h : Within t T) (hT : T.step at_ part = .ok q) :
    t.step at_ part = .ok q ∨ t.step at_ part = .error .missing := by
  have hdir := (step_eq_further hT).2
  unfold Tree.step at hT ⊢
  rw [hdir] at hT
  -- A step through a directory of the larger tree meets that directory, or nothing.
  rcases h.directory_or_none hdir with hn | hn
  · rw [hn]
    exact .inl hT
  · rw [hn]
    exact .inr rfl

theorem foldlM_step {parts : List String} {at_ : Place} (h : Within t T)
    (hT : parts.foldlM T.step at_ = .ok q) :
    parts.foldlM t.step at_ = .ok q ∨ parts.foldlM t.step at_ = .error .missing := by
  induction parts generalizing at_ with
  | nil => exact .inl hT
  | cons part parts ih =>
    rw [List.foldlM_cons] at hT ⊢
    cases hstep : T.step at_ part with
    | error e => rw [hstep] at hT; cases hT
    | ok at' =>
      rw [hstep] at hT
      rcases h.step hstep with hok | hmissing
      · rw [hok]
        exact ih hT
      · rw [hmissing]
        exact .inr rfl

/-- A path of the larger tree can be followed in the smaller one, or something is missing. -/
theorem locate (h : Within t T) (hT : T.locate p = .ok q) :
    t.locate p = .ok q ∨ t.locate p = .error (.met .missing p) := by
  obtain ⟨hnull, hshort, hfold⟩ := locate_eq_ok.1 hT
  rw [← h.cwd] at hfold
  rcases h.foldlM_step hfold with hok | hmissing
  · exact .inl (locate_eq_ok.2 ⟨hnull, hshort, hok⟩)
  · right
    unfold Tree.locate
    rw [if_neg (by simp [hnull]), if_neg (by omega), hmissing]
    rfl

end Within

/-- A path of the larger tree can be followed to its end where its parent is a directory. -/
theorem locate_of_parent {at_ : Place} (h : Within t T) (hT : T.locate p = .ok q)
    (hp : p.parts ≠ []) (hparent : t.find p.parent = .ok (at_, .directory)) :
    t.locate p = .ok q := by
  obtain ⟨hnull, hshort, hfold⟩ := locate_eq_ok.1 hT
  obtain ⟨front, last, hparts⟩ := (List.eq_nil_or_concat' p.parts).resolve_left hp
  have hfront : p.parent.parts = front := by rw [Path.parent, hparts, List.dropLast_concat]
  obtain ⟨hloc, hnode⟩ := find_eq_ok.1 hparent
  obtain ⟨-, -, hwalk⟩ := locate_eq_ok.1 hloc
  rw [hfront] at hwalk
  refine locate_eq_ok.2 ⟨hnull, hshort, ?_⟩
  rw [← h.cwd] at hfold
  rcases h.foldlM_step hfold with hok | hmissing
  · exact hok
  · -- Nothing is missing on the way to a directory, nor in it.
    rw [hparts, List.foldlM_append] at hmissing
    have hwalk : front.foldlM t.step (if p.root = .relative then t.cwd else []) = .ok at_ := hwalk
    rw [hwalk] at hmissing
    have hmissing : [last].foldlM t.step at_ = .error .missing := hmissing
    have hstep : t.step at_ last = .error .missing := by simpa using hmissing
    unfold step at hstep
    rw [hnode] at hstep
    dsimp only at hstep
    repeat' split at hstep
    all_goals cases hstep

/-! ## §3. Making directories -/

theorem makeDirectory_of_none (hq : t.locate p = .ok q) (hn : t.node? q = none) :
    t.makeDirectory p = .ok (t.set q .directory) := by
  unfold makeDirectory
  rw [hq]
  simp only [bind, Except.bind, hn]
  rfl

/-- A directory of the larger tree that can be reached in the smaller one. -/
theorem ensureDirectory_within (h : Within t T) (hT : T.find p = .ok (q, .directory))
    (hq : t.locate p = .ok q) :
    ∃ t', t.ensureDirectory p = .ok t' ∧ Within t' T ∧ t'.find p = .ok (q, .directory) := by
  obtain ⟨-, hnode⟩ := find_eq_ok.1 hT
  -- Either the directory is there already, or it can be made.
  rcases h.directory_or_none hnode with hn | hn
  · have hmake : t.makeDirectory p = .error (.met .present p) := by
      unfold makeDirectory
      rw [hq]
      simp only [bind, Except.bind, hn]
      rfl
    have hfind : t.find p = .ok (q, .directory) := find_eq_ok.2 ⟨hq, hn⟩
    have hthere : t.isDirectory? p = .ok true := by
      unfold isDirectory? holds?
      rw [hfind]
      rfl
    refine ⟨t, ?_, h, hfind⟩
    unfold ensureDirectory
    rw [hmake]
    simp only [hthere, bind, Except.bind]
    rfl
  · have hmake := makeDirectory_of_none hq hn
    have hgrows : Grows (fun _ => False) t (t.set q .directory) := .set_directory hn
    refine ⟨_, ?_, h.set_directory hnode, find_eq_ok.2 ⟨hgrows.locate hq, ?_⟩⟩
    · unfold ensureDirectory
      rw [hmake]
      rfl
    · rw [node?_set]
      split
      · rfl
      · rw [if_pos rfl]

theorem ensureDirectory_of_missing (hq : t.locate p = .error (.met .missing p)) :
    t.ensureDirectory p = .error (.met .missing p) := by
  have hmake : t.makeDirectory p = .error (.met .missing p) := by
    unfold makeDirectory
    rw [hq]
    rfl
  unfold ensureDirectory
  rw [hmake]
  rfl

theorem makePath_within {fuel : Nat} (h : Within t T) (hT : T.find p = .ok (q, .directory))
    (hfuel : p.parts.length ≤ fuel) :
    ∃ t', makePath fuel t p = .ok t' ∧ Within t' T ∧ t'.find p = .ok (q, .directory) := by
  obtain ⟨hloc, hnode⟩ := find_eq_ok.1 hT
  induction fuel generalizing p q t with
  | zero =>
    refine ensureDirectory_within h hT ?_
    -- Without parts the path ends where it starts.
    have hnil : p.parts = [] := List.length_eq_zero_iff.1 (Nat.le_zero.1 hfuel)
    obtain ⟨hnull, hshort, hfold⟩ := locate_eq_ok.1 hloc
    refine locate_eq_ok.2 ⟨hnull, hshort, ?_⟩
    rw [hnil] at hfold ⊢
    rw [h.cwd]
    exact hfold
  | succ fuel ih =>
    rcases h.locate hloc with hq | hmissing
    · obtain ⟨t', ht', hwithin, hfind⟩ := ensureDirectory_within h hT hq
      refine ⟨t', ?_, hwithin, hfind⟩
      unfold makePath
      rw [ht']
    · have hne : p.parts ≠ [] := by
        intro hnil
        obtain ⟨hnull, hshort, -⟩ := locate_eq_ok.1 hloc
        have hok : t.locate p = .ok (if p.root = .relative then t.cwd else []) :=
          locate_eq_ok.2 ⟨hnull, hshort, by rw [hnil]; rfl⟩
        rw [hok] at hmissing
        cases hmissing
      -- The parent is made first; then the path can be followed to its end.
      obtain ⟨at_, hparent⟩ := find_parent hloc hne
      obtain ⟨hparentLoc, hparentNode⟩ := find_eq_ok.1 hparent
      have hlength : p.parent.parts.length ≤ fuel := by
        simp only [Path.parent, List.length_dropLast]
        omega
      obtain ⟨t₁, ht₁, hwithin, hfind⟩ := ih h hparent hlength hparentLoc hparentNode
      have hq : t₁.locate p = .ok q := locate_of_parent hwithin hloc hne hfind
      obtain ⟨t', ht', hwithin', hfind'⟩ := ensureDirectory_within hwithin hT hq
      refine ⟨t', ?_, hwithin', hfind'⟩
      unfold makePath
      rw [ensureDirectory_of_missing hmissing]
      simp only [if_neg hne, ht₁, bind, Except.bind]
      exact ht'

/-- A directory of the larger tree can be made in the smaller one. -/
theorem makeDirectories_within (h : Within t T) (hT : T.find p = .ok (q, .directory)) :
    ∃ t', t.makeDirectories p = .ok t' ∧ Within t' T ∧ t'.find p = .ok (q, .directory) :=
  makePath_within h hT (Nat.le_refl _)

/-! ## §4. Writing files -/

/-- A file, and the directory that its path leads through. -/
def HasFile (t : Tree) (p : Path) : Prop :=
  (∃ q text, t.find p = .ok (q, .file text)) ∧ ∃ at_, t.find p.parent = .ok (at_, .directory)

/-- A file of the larger tree can be written in the smaller one, whatever its text. -/
theorem write_within (h : Within t T) (hT : T.HasFile p) (text : String) :
    ∃ t₁ t', t.makeDirectories p.parent = .ok t₁ ∧ t₁.write p text = .ok t' ∧ Within t' T := by
  obtain ⟨⟨q, old, hT⟩, at_, hparent⟩ := hT
  obtain ⟨hloc, hnode⟩ := find_eq_ok.1 hT
  -- A file is no directory, so its path is not its own parent.
  have hne : p.parts ≠ [] := by
    intro hnil
    rw [Path.parent_of_nil hnil, hT] at hparent
    cases hparent
  obtain ⟨t₁, ht₁, hwithin, hfind⟩ := makeDirectories_within h hparent
  have hq := locate_of_parent hwithin hloc hne hfind
  refine ⟨t₁, t₁.set q (.file text), ht₁, ?_, hwithin.set_file hnode⟩
  have hfile : t₁.node? q ≠ some .directory := by
    intro hdir
    have := hwithin.directories q hdir
    rw [hnode] at this
    cases this
  unfold write
  rw [hq]
  simp only [bind, Except.bind]
  rfl

/-- A tree is within the one that it becomes when a text is written. -/
theorem Wrote.within {text : String} (h : Wrote p text t T) : Within t T where
  cwd := h.grows.cwd.symm
  directories := h.grows.directories
  files := by
    intro at_ old hat
    by_cases heq : at_ = p.goal t.cwd
    · exact ⟨text, heq ▸ (find_eq_ok.1 h.found).2⟩
    · exact ⟨old, h.grows.files at_ old heq hat⟩

theorem Wrote.hasFile {text : String} (h : Wrote p text t T) : T.HasFile p :=
  ⟨⟨_, text, h.found⟩, h.parent⟩

/-- A file stays one. -/
theorem HasFile.of_within {written : Place → Prop} (h : t.HasFile p) (hT : Within t T)
    (hgrows : Grows written t T) : T.HasFile p := by
  obtain ⟨⟨q, text, hfile⟩, at_, hparent⟩ := h
  obtain ⟨hloc, hnode⟩ := find_eq_ok.1 hfile
  obtain ⟨text', hnode'⟩ := hT.files q text hnode
  exact ⟨⟨q, text', find_eq_ok.2 ⟨hgrows.locate hloc, hnode'⟩⟩, at_, hgrows.find_directory hparent⟩

end Tree

end EmmyStubs.Files
