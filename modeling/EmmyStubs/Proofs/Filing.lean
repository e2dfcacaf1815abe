import Mathlib.Tactic.TFAE
import EmmyStubs.Proofs.Confining

/-! # A file for every namespace

    * **`intercalate_parts_ofString`**: a path text that has a part between any two slashes is read
      without loss.
    * **`WellFormed`**: the namespaces whose segments are parts of a path.
    * **`namespacePath_tfae`**: the paths of two such namespaces, their texts and the places to
      which they lead are the same for the same namespace only.
    * **`namespacePath_apart`**: so every such namespace has a file of its own, which is not that of
      the index.
-/

namespace EmmyStubs

open EmmyStubs.Files EmmyStubs.Text

/-! ## §1. Stretches -/

namespace Text

variable {sep new : Char} {s w b : List Char}

theorem segments_eq_splitOn (sep : Char) (s : List Char) : segments sep s = s.splitOn sep := by
  induction s with
  | nil => rfl
  | cons c s ih =>
    rw [List.splitOn_cons_eq_if_modifyHead, ← ih]
    by_cases hc : c = sep
    · simp [segments, hc]
    · obtain ⟨w, ws, hs, hcons⟩ := exists_segments_cons (s := s) hc
      simp [hcons, hs, hc]

theorem intercalate_segments (sep : Char) (s : List Char) :
    [sep].intercalate (segments sep s) = s := by
  rw [segments_eq_splitOn, List.intercalate_splitOn]

theorem segments_of_notMem (h : sep ∉ s) : segments sep s = [s] := by
  rw [segments_eq_splitOn, List.splitOn_eq_singleton h]

/-- A separator is in no stretch. -/
theorem notMem_of_mem_segments (h : w ∈ segments sep s) : sep ∉ w := by
  induction s generalizing w with
  | nil =>
    rw [segments, List.mem_singleton] at h
    simp [h]
  | cons c s ih =>
    by_cases hc : c = sep
    · rw [hc, segments_cons_self] at h
      rcases List.mem_cons.1 h with rfl | h
      · simp
      · exact ih h
    · obtain ⟨v, ws, hs, hcons⟩ := exists_segments_cons (s := s) hc
      rw [hcons] at h
      rcases List.mem_cons.1 h with rfl | h
      · have hv := ih (hs ▸ List.mem_cons_self : v ∈ segments sep s)
        simp [hv, Ne.symm hc]
      · exact ih (hs ▸ List.mem_cons_of_mem v h)

/-- What has no separator goes to the last stretch. -/
theorem exists_segments_append (hb : sep ∉ b) (s : List Char) :
    ∃ front last, segments sep s = front ++ [last] ∧
      segments sep (s ++ b) = front ++ [last ++ b] := by
  induction s with
  | nil => exact ⟨[], [], rfl, segments_of_notMem hb⟩
  | cons c s ih =>
    obtain ⟨front, last, hs, hsb⟩ := ih
    by_cases hc : c = sep
    · refine ⟨[] :: front, last, ?_, ?_⟩
      · rw [hc, segments_cons_self, hs, List.cons_append]
      · rw [hc, List.cons_append, segments_cons_self, hsb, List.cons_append]
    · cases front with
      | nil => exact ⟨[], c :: last, by simp [segments, hc, hs], by simp [segments, hc, hsb]⟩
      | cons w front =>
        exact ⟨(c :: w) :: front, last, by simp [segments, hc, hs], by simp [segments, hc, hsb]⟩

/-- Another separator in place of the old one leaves the stretches as they are. -/
theorem segments_replace (h : new ∉ s) :
    segments new (s.map fun c => if c = sep then new else c) = segments sep s := by
  induction s with
  | nil => rfl
  | cons c s ih =>
    rw [List.mem_cons, not_or] at h
    by_cases hc : c = sep
    · rw [List.map_cons, if_pos hc, segments_cons_self, ih h.2, hc, segments_cons_self]
    · rw [List.map_cons, if_neg hc, segments, if_neg (Ne.symm h.1), ih h.2, segments, if_neg hc]

end Text

/-! ## §2. Path texts -/

namespace Files.Path

/-- The path that is read from parts between slashes has these parts, from where it starts on. -/
theorem intercalate_parts_ofString {s : String}
    (h : ∀ w ∈ segments '/' s.toList, isPart w = true) :
    (ofString s).root = .relative ∧ "/".intercalate (ofString s).parts = s := by
  constructor
  · rw [root_ofString_eq_relative]
    intro hhead
    -- A slash at the front has nothing before it.
    obtain ⟨cs, hcs⟩ := List.head?_eq_some_iff.1 hhead
    exact absurd (h [] (by simp [hcs, segments])) (by decide)
  · have hparts : (ofString s).parts = (segments '/' s.toList).map String.ofList := by
      rw [ofString, partsOf, List.filter_eq_self.2 h]
    have htexts : (String.toList ∘ String.ofList : List Char → List Char) = id :=
      funext fun _ => String.toList_ofList
    rw [← String.toList_inj, hparts, String.toList_intercalate, List.map_map, htexts, List.map_id]
    exact intercalate_segments '/' s.toList

/-- A path below another one leads on from where that one leads. -/
theorem goal_join {p q : Path} (hroot : q.root = .relative) (hup : ".." ∉ q.parts) (cwd : Place) :
    (p.join q).goal cwd = p.goal cwd ++ q.parts := by
  rw [join, if_pos hroot, goal, List.foldl_append, foldl_further hup]
  rfl

end Files.Path

namespace Output

/-! ## §3. Well-formed names -/

/-- A name that is one part of a path and leads down. -/
structure IsComponent (name : String) : Prop where
  ne_empty : name ≠ ""
  ne_point : name ≠ "."
  ne_up : name ≠ ".."
  slash : '/' ∉ name.toList

/-- No namespace, the empty one, or a name other than the one that stands for no namespace, with
    something but no slash before, between and behind its points. -/
def WellFormed : Option String → Prop
  | none => True
  | some s => s = "" ∨ s ≠ Lua.noNamespace ∧ ∀ w ∈ segments '.' s.toList, w ≠ [] ∧ '/' ∉ w

/-- What the path of a namespace is spelled with. -/
def spelling (space : Option String) : String :=
  if space.getD "" = "" then Lua.noNamespace else space.getD ""

variable {s s' : Option String} {assembly : String}

theorem toList_spacePath (s : Option String) :
    (spacePath s).toList
      = ((spelling s).toList.map fun c => if c = '.' then '/' else c) ++ ".lua".toList := by
  have hnone : Lua.noNamespace.toList.map (fun c => if c = '.' then '/' else c)
      = Lua.noNamespace.toList := by decide
  cases s with
  | none => simp [spacePath, spelling, hnone]
  | some s =>
    by_cases hs : s = ""
    · simp [spacePath, spelling, hs, hnone]
    · simp [spacePath, spelling, hs]

theorem WellFormed.segments_spelling (h : WellFormed s) :
    ∀ w ∈ segments '.' (spelling s).toList, w ≠ [] ∧ '/' ∉ w := by
  have hnone : ∀ w ∈ segments '.' Lua.noNamespace.toList, w ≠ [] ∧ '/' ∉ w := by decide
  cases s with
  | none => exact hnone
  | some s =>
    by_cases hs : s = ""
    · rw [spelling, Option.getD_some, if_pos hs]
      exact hnone
    · rw [spelling, Option.getD_some, if_neg hs]
      exact (h.resolve_left hs).2

theorem WellFormed.spelling_eq_iff (h : WellFormed s) (h' : WellFormed s') :
    spelling s = spelling s' ↔ s.getD "" = s'.getD "" := by
  -- The name that stands for no namespace is not spelled by any other one.
  have hother : ∀ {s : Option String}, WellFormed s → s.getD "" ≠ "" →
      s.getD "" ≠ Lua.noNamespace := by
    intro s h hs
    cases s with
    | none => exact absurd rfl hs
    | some s => exact (h.resolve_left hs).1
  unfold spelling
  by_cases hs : s.getD "" = "" <;> by_cases hs' : s'.getD "" = ""
  · simp [hs, hs']
  · simp [hs, hs', Ne.symm (hother h' hs'), Ne.symm hs']
  · simp [hs, hs', hother h hs]
  · simp [hs, hs']

theorem WellFormed.slash_notMem (h : WellFormed s) : '/' ∉ (spelling s).toList := by
  intro hmem
  obtain ⟨w, hw, hslash⟩ : ∃ w ∈ segments '.' (spelling s).toList, '/' ∈ w :=
    exists_segment hmem (by decide)
  exact (h.segments_spelling w hw).2 hslash

theorem WellFormed.spacePath_eq_iff (h : WellFormed s) (h' : WellFormed s') :
    spacePath s = spacePath s' ↔ s.getD "" = s'.getD "" := by
  rw [← h.spelling_eq_iff h', ← String.toList_inj, toList_spacePath, toList_spacePath,
    List.append_cancel_right_eq]
  constructor
  · intro heq
    have hsegments := congrArg (segments '/') heq
    rw [segments_replace h.slash_notMem, segments_replace h'.slash_notMem] at hsegments
    rw [← String.toList_inj, ← intercalate_segments '.' (spelling s).toList, hsegments,
      intercalate_segments]
  · intro heq
    rw [heq]

/-- The segments of a well-formed namespace are the parts of its path. -/
theorem WellFormed.isPart (h : WellFormed s) :
    ∀ w ∈ segments '/' (spacePath s).toList, Path.isPart w = true := by
  have hsegment : ∀ w ∈ segments '.' (spelling s).toList, Path.isPart w = true := by
    intro w hw
    have hpoint : w ≠ ['.'] := fun heq => notMem_of_mem_segments hw (heq ▸ List.mem_cons_self)
    simp [Path.isPart, (h.segments_spelling w hw).1, hpoint]
  have hslash : '/' ∉ ".lua".toList := by decide
  obtain ⟨front, last, hfront, hending⟩ := exists_segments_append hslash
    ((spelling s).toList.map fun c => if c = '.' then '/' else c)
  rw [segments_replace h.slash_notMem] at hfront
  rw [toList_spacePath, hending]
  intro w hw
  rcases List.mem_append.1 hw with hw | hw
  · exact hsegment w (hfront ▸ List.mem_append_left _ hw)
  · -- The ending alone is longer than a point.
    rw [List.mem_singleton] at hw
    have hpoint : w ≠ ['.'] := fun heq => by simpa using congrArg List.length (hw.symm.trans heq)
    have hne : w ≠ [] := by simp [hw]
    simp [Path.isPart, hne, hpoint]

theorem IsComponent.ofString_eq (h : IsComponent assembly) :
    Path.ofString assembly = ⟨.relative, [assembly]⟩ := by
  have hpart : Path.isPart assembly.toList = true := by
    have hne : assembly.toList ≠ [] := fun heq => h.ne_empty (String.toList_inj.1 heq)
    have hpoint : assembly.toList ≠ ['.'] := fun heq => h.ne_point (String.toList_inj.1 heq)
    simp [Path.isPart, hne, hpoint]
  have hsegments := segments_of_notMem h.slash
  have hroot := (Path.intercalate_parts_ofString (s := assembly) (by simp [hsegments, hpart])).1
  have hparts : (Path.ofString assembly).parts = [assembly] := by
    simp [Path.ofString, Path.partsOf, hsegments, hpart]
  rw [← hparts, ← hroot]

/-! ## §4. Paths -/

/-- The path of a well-formed namespace goes on from that of the output directory. -/
theorem namespacePath_eq (output : Path) (ha : IsComponent assembly) (h : WellFormed s) :
    namespacePath output assembly s
      = ⟨output.root, output.parts ++ assembly :: (Path.ofString (spacePath s)).parts⟩ := by
  have hroot := (Path.intercalate_parts_ofString h.isPart).1
  rw [namespacePath, Path.child, Path.child, ha.ofString_eq, Path.join, if_pos hroot, Path.join,
    if_pos rfl, List.append_assoc, List.singleton_append]

theorem goal_namespacePath (output : Path) (ha : IsComponent assembly) (h : WellFormed s)
    (cwd : Place) : (namespacePath output assembly s).goal cwd
      = output.goal cwd ++ assembly :: (Path.ofString (spacePath s)).parts := by
  have hup : ".." ∉ assembly :: (Path.ofString (spacePath s)).parts := by
    rw [List.mem_cons, not_or]
    exact ⟨Ne.symm ha.ne_up, (parts_spacePath s).2⟩
  have hjoin : namespacePath output assembly s
      = output.join ⟨.relative, assembly :: (Path.ofString (spacePath s)).parts⟩ := by
    rw [namespacePath_eq output ha h, Path.join, if_pos rfl]
  rw [hjoin, Path.goal_join rfl hup]

/-- The text of a path with parts below those of a directory. -/
theorem toString_below (output : Path) {parts : List String} (h : parts ≠ []) :
    Path.toString ⟨output.root, output.parts ++ parts⟩
      = output.root.text ++ (if output.parts = [] then "" else "/".intercalate output.parts ++ "/")
        ++ "/".intercalate parts := by
  have hne : output.parts ++ parts ≠ [] := by simp [h]
  have htext : Path.toString ⟨output.root, output.parts ++ parts⟩
      = output.root.text ++ "/".intercalate (output.parts ++ parts) := by
    unfold Path.toString
    split
    · next hnil => exact absurd hnil hne
    · rfl
  rw [htext]
  by_cases hparts : output.parts = []
  · simp [hparts]
  · rw [if_neg hparts, String.intercalate_append_of_ne_nil hparts h]
    simp only [String.append_assoc]

theorem toString_namespacePath (output : Path) (ha : IsComponent assembly) (h : WellFormed s) :
    (namespacePath output assembly s).toString
      = output.root.text ++ (if output.parts = [] then "" else "/".intercalate output.parts ++ "/")
        ++ (assembly ++ "/" ++ spacePath s) := by
  have hspace := (Path.intercalate_parts_ofString h.isPart).2
  have hcons : ("/").intercalate (assembly :: (Path.ofString (spacePath s)).parts)
      = assembly ++ "/" ++ spacePath s := by
    rw [← List.singleton_append,
      String.intercalate_append_of_ne_nil (by simp) (parts_spacePath s).1, hspace,
      String.intercalate_singleton]
  rw [namespacePath_eq output ha h, toString_below output (by simp), hcons]

/-- The paths of two well-formed namespaces, their texts, and the places to which they lead are the
    same just where the namespaces are, the empty one being none. -/
theorem namespacePath_tfae (output : Path) (ha : IsComponent assembly) (h : WellFormed s)
    (h' : WellFormed s') (cwd : Place) :
    [s.getD "" = s'.getD "",
      namespacePath output assembly s = namespacePath output assembly s',
      (namespacePath output assembly s).toString = (namespacePath output assembly s').toString,
      (namespacePath output assembly s).goal cwd
        = (namespacePath output assembly s').goal cwd].TFAE := by
  rw [← h.spacePath_eq_iff h']
  tfae_have 1 → 2 := by
    intro heq
    rw [namespacePath_eq output ha h, namespacePath_eq output ha h', heq]
  tfae_have 2 → 3 := fun heq => by rw [heq]
  tfae_have 3 → 1 := by
    intro heq
    rwa [toString_namespacePath output ha h, toString_namespacePath output ha h',
      String.append_right_inj, String.append_right_inj] at heq
  tfae_have 2 → 4 := fun heq => by rw [heq]
  tfae_have 4 → 1 := by
    intro heq
    rw [goal_namespacePath output ha h, goal_namespacePath output ha h'] at heq
    have hparts := List.tail_eq_of_cons_eq (List.append_cancel_left heq)
    rw [← (Path.intercalate_parts_ofString h.isPart).2, hparts,
      (Path.intercalate_parts_ofString h'.isPart).2]
  tfae_finish

/-- The index stands beside the directory of the assembly, not below it. -/
theorem namespacePath_ne_indexPath (output : Path) (ha : IsComponent assembly) (h : WellFormed s)
    (cwd : Place) :
    namespacePath output assembly s ≠ indexPath output ∧
      (namespacePath output assembly s).toString ≠ (indexPath output).toString ∧
      (namespacePath output assembly s).goal cwd ≠ (indexPath output).goal cwd := by
  have hindex : indexPath output = ⟨output.root, output.parts ++ ["global.lua"]⟩ := by
    have hname : Path.ofString "global.lua" = ⟨.relative, ["global.lua"]⟩ := by decide +kernel
    rw [indexPath, Path.child, hname, Path.join, if_pos rfl]
  have htext : (namespacePath output assembly s).toString ≠ (indexPath output).toString := by
    rw [hindex, toString_namespacePath output ha h, toString_below output (by simp),
      Ne, String.append_right_inj, String.intercalate_singleton]
    intro heq
    have hslash : '/' ∈ (assembly ++ "/" ++ spacePath s).toList := by simp
    exact absurd (heq ▸ hslash) (by decide)
  refine ⟨fun heq => htext (by rw [heq]), htext, fun heq => ?_⟩
  have hgoal : (indexPath output).goal cwd = output.goal cwd ++ ["global.lua"] := by
    have hjoin : indexPath output = output.join ⟨.relative, ["global.lua"]⟩ := by
      rw [hindex, Path.join, if_pos rfl]
    rw [hjoin, Path.goal_join rfl (by decide)]
  rw [goal_namespacePath output ha h, hgoal] at heq
  have hlength := congrArg List.length heq
  have hparts := List.length_pos_iff.2 (parts_spacePath s).1
  simp only [List.length_append, List.length_cons, List.length_nil] at hlength
  omega

/-- Below an output directory, in that of an assembly, every well-formed namespace has a file of
    its own, none of which is the index; only types of no namespace and of the empty one share a
    file. -/
theorem namespacePath_apart (output : Path) (ha : IsComponent assembly) (cwd : Place) :
    (∀ s s', WellFormed s → WellFormed s' →
      [s.getD "" = s'.getD "",
        namespacePath output assembly s = namespacePath output assembly s',
        (namespacePath output assembly s).toString = (namespacePath output assembly s').toString,
        (namespacePath output assembly s).goal cwd
          = (namespacePath output assembly s').goal cwd].TFAE) ∧
      (∀ s, WellFormed s →
        namespacePath output assembly s ≠ indexPath output ∧
          (namespacePath output assembly s).toString ≠ (indexPath output).toString ∧
          (namespacePath output assembly s).goal cwd ≠ (indexPath output).goal cwd) ∧
      ∀ s, s.getD "" = "" →
        namespacePath output assembly s
          = ⟨output.root, output.parts ++ [assembly, Lua.noNamespace ++ ".lua"]⟩ := by
  refine ⟨fun s s' h h' => namespacePath_tfae output ha h h' cwd,
    fun s h => namespacePath_ne_indexPath output ha h cwd, fun s hs => ?_⟩
  have hempty : WellFormed s := by
    cases s with
    | none => trivial
    | some s => exact .inl hs
  have hnone : spacePath s = spacePath none :=
    (hempty.spacePath_eq_iff (show WellFormed none from trivial)).2 hs
  have hparts : (Path.ofString (spacePath none)).parts = [Lua.noNamespace ++ ".lua"] := by
    decide +kernel
  rw [namespacePath_eq output ha hempty, hnone, hparts]

/-- The ending of one namespace is a segment of the other. -/
theorem toolPaths_apart :
    IsComponent "Game" ∧ WellFormed (some "Tool") ∧ WellFormed (some "Tool.lua") ∧
      namespacePath ⟨.relative, ["out"]⟩ "Game" (some "Tool")
        ≠ namespacePath ⟨.relative, ["out"]⟩ "Game" (some "Tool.lua") ∧
      namespacePath ⟨.relative, ["out"]⟩ "Game" (some "Tool") ≠ indexPath ⟨.relative, ["out"]⟩ ∧
      namespacePath ⟨.relative, ["out"]⟩ "Game" (some "")
        = ⟨.relative, ["out", "Game", "-.lua"]⟩ := by
  have hgame : IsComponent "Game" := ⟨by decide, by decide, by decide, by decide⟩
  have htool : WellFormed (some "Tool") := .inr ⟨by decide, by decide⟩
  have hending : WellFormed (some "Tool.lua") := .inr ⟨by decide, by decide⟩
  obtain ⟨hsame, hindex, hnone⟩ := namespacePath_apart ⟨.relative, ["out"]⟩ hgame []
  refine ⟨hgame, htool, hending, fun heq => ?_, (hindex _ htool).1, hnone (some "") rfl⟩
  exact absurd (((hsame _ _ htool hending).out 0 1).2 heq) (by decide)

end Output

end EmmyStubs
