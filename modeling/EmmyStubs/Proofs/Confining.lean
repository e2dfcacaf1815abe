import EmmyStubs.Output
import EmmyStubs.Proofs.Trees

/-! # Files below the output directory

    The path of a stub file is put together from texts that a dump may choose freely.

    * **`Path.Inside`**: a path goes on from a directory, and never back up.
    * **`Output.Confined`**: the names of an assembly and a namespace that are safe.
    * **`inside_namespacePath_iff`**: the file of a namespace is inside the output directory just
      where its names are confined, or where they discard the directory and spell it themselves.
-/

namespace EmmyStubs

open EmmyStubs.Files EmmyStubs.Text

/-! ## §1. Inside a directory -/

namespace Files.Path

/-- The path leads into the directory by its text: it has some more parts, none of which goes
    up. -/
def Inside (directory p : Path) : Prop :=
  p.root = directory.root ∧
    ∃ rest, rest ≠ [] ∧ ".." ∉ rest ∧ p.parts = directory.parts ++ rest

/-- Parts none of which goes up lead on by their names. -/
theorem foldl_further {rest : List String} (h : ".." ∉ rest) (at_ : Place) :
    rest.foldl Place.further at_ = at_ ++ rest := by
  induction rest generalizing at_ with
  | nil => simp
  | cons part rest ih =>
    rw [List.mem_cons, not_or] at h
    rw [List.foldl_cons, ih h.2, Place.further, if_neg fun heq => h.1 heq.symm,
      List.append_assoc, List.singleton_append]

/-- So wherever the directory is, the path leads to a place below it. -/
theorem Inside.goal {directory p : Path} (h : Inside directory p) (cwd : Place) :
    ∃ rest, rest ≠ [] ∧ p.goal cwd = directory.goal cwd ++ rest := by
  obtain ⟨hroot, rest, hne, hup, hparts⟩ := h
  refine ⟨rest, hne, ?_⟩
  rw [Path.goal, hparts, List.foldl_append, foldl_further hup, hroot]
  rfl

/-- What is joined onto a directory is inside if it has parts and none goes up; an absolute path
    takes the place of the directory. -/
theorem inside_join_iff {directory q : Path} :
    Inside directory (directory.join q) ↔
      q.root = .relative ∧ q.parts ≠ [] ∧ ".." ∉ q.parts ∨
        q.root ≠ .relative ∧ Inside directory q := by
  unfold join
  by_cases hroot : q.root = .relative
  · rw [if_pos hroot]
    constructor
    · rintro ⟨-, rest, hne, hup, hparts⟩
      have hrest : q.parts = rest := List.append_cancel_left hparts
      exact .inl ⟨hroot, hrest ▸ hne, hrest ▸ hup⟩
    · rintro (⟨-, hne, hup⟩ | ⟨habsolute, -⟩)
      · exact ⟨rfl, q.parts, hne, hup, rfl⟩
      · exact absurd hroot habsolute
  · rw [if_neg hroot]
    constructor
    · exact fun h => .inr ⟨hroot, h⟩
    · rintro (⟨hrelative, -⟩ | ⟨-, h⟩)
      · exact absurd hrelative hroot
      · exact h

theorem join_assoc (p q r : Path) : (p.join q).join r = p.join (q.join r) := by
  unfold join
  by_cases hr : r.root = .relative
  · by_cases hq : q.root = .relative
    · simp [hr, hq]
    · simp [hr, hq]
  · simp [hr]

end Files.Path

/-! ## §2. Names -/

namespace Text

variable {sep c : Char} {s w : List Char}

/-- A text that does not begin with a separator goes on with its first stretch. -/
theorem exists_segments_cons (hc : c ≠ sep) :
    ∃ w ws, segments sep s = w :: ws ∧ segments sep (c :: s) = (c :: w) :: ws := by
  obtain ⟨w, ws, hs⟩ := List.exists_cons_of_ne_nil (segments_ne_nil sep s)
  exact ⟨w, ws, hs, by rw [segments, if_neg hc, hs]⟩

theorem segments_cons_self : segments sep (sep :: s) = [] :: segments sep s := by
  rw [segments, if_pos rfl]

/-- No stretch has a character more often than the text. -/
theorem count_le_of_mem_segments (h : w ∈ segments sep s) : w.count c ≤ s.count c := by
  induction s generalizing w with
  | nil =>
    rw [segments, List.mem_singleton] at h
    exact h ▸ Nat.le_refl _
  | cons d s ih =>
    by_cases hd : d = sep
    · rw [hd, segments_cons_self] at h
      rcases List.mem_cons.1 h with rfl | h
      · exact Nat.zero_le _
      · exact Nat.le_trans (ih h) List.count_le_count_cons
    · obtain ⟨v, ws, hs, hcons⟩ := exists_segments_cons (s := s) hd
      rw [hcons] at h
      rcases List.mem_cons.1 h with rfl | h
      · have hv := ih (w := v) (hs ▸ List.mem_cons_self)
        rw [List.count_cons, List.count_cons]
        exact Nat.add_le_add_right hv _
      · exact Nat.le_trans (ih (hs ▸ List.mem_cons_of_mem v h)) List.count_le_count_cons

/-- Each character but the separators is in a stretch. -/
theorem exists_segment (hc : c ∈ s) (hsep : c ≠ sep) : ∃ w ∈ segments sep s, c ∈ w := by
  induction s with
  | nil => cases hc
  | cons d s ih =>
    by_cases hd : d = sep
    · rw [hd, segments_cons_self]
      have hrest : c ∈ s := (List.mem_cons.1 hc).resolve_left fun heq => hsep (heq.trans hd)
      obtain ⟨w, hw, hmem⟩ := ih hrest
      exact ⟨w, List.mem_cons_of_mem _ hw, hmem⟩
    · obtain ⟨v, ws, hs, hcons⟩ := exists_segments_cons (s := s) hd
      rw [hcons]
      rcases List.mem_cons.1 hc with rfl | hrest
      · exact ⟨_, List.mem_cons_self, List.mem_cons_self⟩
      · obtain ⟨w, hw, hmem⟩ := ih hrest
        rw [hs] at hw
        rcases List.mem_cons.1 hw with rfl | hw
        · exact ⟨_, List.mem_cons_self, List.mem_cons_of_mem d hmem⟩
        · exact ⟨w, List.mem_cons_of_mem _ hw, hmem⟩

end Text

namespace Files.Path

/-- A path text is absolute if it begins with a slash. -/
theorem root_ofString_eq_relative {s : String} :
    (ofString s).root = .relative ↔ s.toList.head? ≠ some '/' := by
  show rootOf s.toList = .relative ↔ _
  cases s.toList with
  | nil => simp [rootOf]
  | cons c cs =>
    unfold rootOf
    split
    · next heq => simp [(List.cons.inj heq).1]
    · next heq => simp [(List.cons.inj heq).1]
    · next heq => simp [(List.cons.inj heq).1]
    · next hno =>
      have hc : c ≠ '/' := fun heq => hno cs (by rw [heq])
      simpa using hc

/-- Two points go up where they stand between slashes. -/
theorem parent_mem_parts_ofString {s : String} :
    ".." ∈ (ofString s).parts ↔ ['.', '.'] ∈ segments '/' s.toList := by
  show ".." ∈ ((segments '/' s.toList).filter isPart).map String.ofList ↔ _
  constructor
  · intro h
    obtain ⟨w, hw, heq⟩ := List.mem_map.1 h
    rw [← String.toList_inj, String.toList_ofList] at heq
    have heq : w = ['.', '.'] := heq
    exact heq ▸ (List.mem_filter.1 hw).1
  · intro h
    exact List.mem_map.2 ⟨['.', '.'], List.mem_filter.2 ⟨h, by decide⟩, by decide⟩

end Files.Path

namespace Output

/-- The path that the names of an assembly and a namespace spell by themselves. -/
def spelled (assembly : String) (space : Option String) : Path :=
  (Path.ofString assembly).child (spacePath space)

theorem namespacePath_eq_join (output : Path) (assembly : String) (space : Option String) :
    namespacePath output assembly space = output.join (spelled assembly space) :=
  Path.join_assoc _ _ _

/-- Whether a namespace begins with a point or a slash. -/
def LeadsOff (space : Option String) : Prop :=
  (space.getD "").toList.head? = some '.' ∨ (space.getD "").toList.head? = some '/'

/-- The path of a namespace is read from a text without points, and the ending. -/
theorem exists_spacePath (space : Option String) :
    ∃ base, (spacePath space).toList = base ++ ".lua".toList ∧ '.' ∉ base ∧ base ≠ [] ∧
      (base.head? = some '/' ↔ LeadsOff space) := by
  have hnone : '.' ∉ Lua.noNamespace.toList ∧ Lua.noNamespace.toList ≠ [] ∧
      Lua.noNamespace.toList.head? ≠ some '/' := by decide
  cases space with
  | none =>
    refine ⟨Lua.noNamespace.toList, String.toList_append, hnone.1, hnone.2.1, ?_⟩
    exact iff_of_false hnone.2.2 (by simp [LeadsOff])
  | some s =>
    by_cases hs : s = ""
    · refine ⟨Lua.noNamespace.toList, ?_, hnone.1, hnone.2.1, ?_⟩
      · rw [spacePath, if_pos hs, String.toList_append]
      · exact iff_of_false hnone.2.2 (by simp [LeadsOff, hs])
    · obtain ⟨c, cs, hcs⟩ := List.exists_cons_of_ne_nil fun heq => hs (String.toList_inj.1 heq)
      refine ⟨s.toList.map fun c => if c = '.' then '/' else c, ?_, ?_, by simp [hcs], ?_⟩
      · rw [spacePath, if_neg hs, String.toList_append, String.toList_ofList]
      · -- Every point becomes a slash.
        intro hmem
        obtain ⟨d, -, hd⟩ := List.mem_map.1 hmem
        split at hd
        · cases hd
        · next hpoint => exact hpoint hd
      · rw [LeadsOff, Option.getD_some, hcs, List.map_cons, List.head?_cons, List.head?_cons]
        simp only [Option.some.injEq]
        by_cases hpoint : c = '.'
        · simp [hpoint]
        · simp [hpoint]

/-- The path of a namespace has parts, and none of them goes up. -/
theorem parts_spacePath (space : Option String) :
    (Path.ofString (spacePath space)).parts ≠ [] ∧
      ".." ∉ (Path.ofString (spacePath space)).parts := by
  obtain ⟨base, htext, hpoint, -, -⟩ := exists_spacePath space
  constructor
  · -- The stretch with the ending is a part.
    have hmem : 'l' ∈ (spacePath space).toList := by
      rw [htext]
      exact List.mem_append_right base (by decide)
    obtain ⟨w, hw, hl⟩ : ∃ w ∈ segments '/' (spacePath space).toList, 'l' ∈ w :=
      exists_segment hmem (by decide)
    have hpart : Path.isPart w = true := by
      have hne : w ≠ [] := List.ne_nil_of_mem hl
      have hdot : w ≠ ['.'] := fun heq => absurd (heq ▸ hl) (by decide)
      simp [Path.isPart, hne, hdot]
    exact List.ne_nil_of_mem (List.mem_map_of_mem (List.mem_filter.2 ⟨hw, hpart⟩))
  · -- The only point of the text is that of the ending.
    rw [Path.parent_mem_parts_ofString, htext]
    intro hup
    have hcount := count_le_of_mem_segments (c := '.') hup
    rw [List.count_append, List.count_eq_zero.2 hpoint] at hcount
    exact absurd hcount (by decide)

theorem root_spacePath_eq_relative {space : Option String} :
    (Path.ofString (spacePath space)).root = .relative ↔ ¬LeadsOff space := by
  obtain ⟨base, htext, -, hne, hhead⟩ := exists_spacePath space
  obtain ⟨c, cs, rfl⟩ := List.exists_cons_of_ne_nil hne
  rw [Path.root_ofString_eq_relative, htext, ← hhead]
  rfl

/-- The names of an assembly and a namespace that keep a file where it belongs: none of them
    spells an absolute path, and the name of the assembly does not go up. -/
structure Confined (assembly : String) (space : Option String) : Prop where
  relative : assembly.toList.head? ≠ some '/'
  stays : ['.', '.'] ∉ segments '/' assembly.toList
  space : ¬LeadsOff space

theorem confined_iff {assembly : String} {space : Option String} :
    Confined assembly space ↔ (spelled assembly space).root = .relative ∧
      (spelled assembly space).parts ≠ [] ∧ ".." ∉ (spelled assembly space).parts := by
  obtain ⟨hne, hup⟩ := parts_spacePath space
  -- Either name alone can make the path absolute.
  have hjoin : (spelled assembly space).root = .relative ↔
      (Path.ofString assembly).root = .relative ∧
        (Path.ofString (spacePath space)).root = .relative := by
    unfold spelled Path.child Path.join
    by_cases hroot : (Path.ofString (spacePath space)).root = .relative
    · simp [hroot]
    · simp [hroot]
  have hparts : (spelled assembly space).root = .relative → (spelled assembly space).parts
      = (Path.ofString assembly).parts ++ (Path.ofString (spacePath space)).parts := by
    intro hroot
    rw [spelled, Path.child, Path.join, if_pos (hjoin.1 hroot).2]
  rw [Path.root_ofString_eq_relative, root_spacePath_eq_relative] at hjoin
  constructor
  · rintro ⟨hrelative, hstays, hspace⟩
    have hroot := hjoin.2 ⟨hrelative, hspace⟩
    rw [hparts hroot]
    refine ⟨hroot, by simp [hne], fun hmem => ?_⟩
    rcases List.mem_append.1 hmem with hmem | hmem
    · exact hstays (Path.parent_mem_parts_ofString.1 hmem)
    · exact hup hmem
  · rintro ⟨hroot, -, hmem⟩
    rw [hparts hroot, List.mem_append, not_or, Path.parent_mem_parts_ofString] at hmem
    exact ⟨(hjoin.1 hroot).1, hmem.1, (hjoin.1 hroot).2⟩

/-- The file of a namespace is inside the output directory just where its names are confined, or
    where they discard the directory and spell a path inside it. -/
theorem inside_namespacePath_iff {output : Path} {assembly : String} {space : Option String} :
    Path.Inside output (namespacePath output assembly space) ↔
      Confined assembly space ∨ (spelled assembly space).root ≠ .relative ∧
        Path.Inside output (spelled assembly space) := by
  rw [namespacePath_eq_join, Path.inside_join_iff, confined_iff]

example : namespacePath ⟨.relative, ["out"]⟩ "Game" (some ".lib") = ⟨.single, ["lib.lua"]⟩ := by
  decide +kernel

theorem inside_indexPath (output : Path) : Path.Inside output (indexPath output) := by
  refine Path.inside_join_iff.2 (.inl ?_)
  decide

end Output

end EmmyStubs
