import EmmyStubs.Graph.Descriptor
import EmmyStubs.Text.Blank
import EmmyStubs.Text.Cut

/-! # Written identities

    An identity spells out what the type is made of: a dotted name with nested names behind
    plus signs, an ampersand behind what is passed by reference, a bracket with a rank behind
    the elements of an array, a bracket with arguments behind a generic name.  `Form.ofIdentity`
    takes the outermost layer off; every identity inside a form is shorter than the whole
    (`Form.length_frame_lt`, `Form.length_arguments_lt`). -/

namespace EmmyStubs.Dump

open EmmyStubs.Text

/-! ## §1. Names -/

/-- The identity up to its first bracket. -/
def shapeOf (s : List Char) : List Char :=
  beforeFirst '[' s

/-- The type's own name: what stands behind the last plus sign and, in that, the last point. -/
def simpleName (s : List Char) : List Char :=
  afterLast '.' (afterLast '+' s)

/-- The namespace: what stands before the last point of the outermost name. -/
def spaceOf (s : List Char) : Option String :=
  match beforeLast '.' (beforeFirst '+' s) with
  | [] => none
  | space => some (String.ofList space)

/-- The type around a nested one: what stands before the last plus sign. -/
def outerOf (s : List Char) : Option Identity :=
  match beforeLast '+' s with
  | [] => none
  | outer => some (String.ofList outer)

/-! ## §2. Brackets -/

/-- Reads characters from the back, inside `depth + 1` open brackets, up to the bracket that
    opens the outermost of them: what was read, and what is left, both from the back. -/
def untilOpening : Nat → List Char → Option (List Char × List Char)
  | _, [] => none
  | 0, '[' :: cs => some ([], cs)
  | depth + 1, '[' :: cs => (untilOpening depth cs).map fun (inner, front) => ('[' :: inner, front)
  | depth, ']' :: cs =>
    (untilOpening (depth + 1) cs).map fun (inner, front) => (']' :: inner, front)
  | depth, c :: cs => (untilOpening depth cs).map fun (inner, front) => (c :: inner, front)

/-- The bracket that ends a text: what stands in front of it, and what it encloses. -/
def trailingBracket? (s : List Char) : Option (List Char × List Char) :=
  match s.reverse with
  | ']' :: cs => (untilOpening 0 cs).map fun (inner, front) => (front.reverse, inner.reverse)
  | _ => none

theorem eq_of_untilOpening {depth : Nat} {s inner front : List Char}
    (h : untilOpening depth s = some (inner, front)) : s = inner ++ '[' :: front := by
  fun_induction untilOpening depth s generalizing inner front with
  | case1 => simp at h
  | case2 cs => simp at h; simp [h]
  | case3 depth cs ih =>
    obtain ⟨⟨i, f⟩, hr, he⟩ := Option.map_eq_some_iff.1 h
    simp only [Prod.mk.injEq] at he
    rw [← he.1, ← he.2, List.cons_append, ← ih hr]
  | case4 depth cs ih =>
    obtain ⟨⟨i, f⟩, hr, he⟩ := Option.map_eq_some_iff.1 h
    simp only [Prod.mk.injEq] at he
    rw [← he.1, ← he.2, List.cons_append, ← ih hr]
  | case5 depth c cs _ _ _ ih =>
    obtain ⟨⟨i, f⟩, hr, he⟩ := Option.map_eq_some_iff.1 h
    simp only [Prod.mk.injEq] at he
    rw [← he.1, ← he.2, List.cons_append, ← ih hr]

/-- A text is its front, and its trailing bracket around what that encloses. -/
theorem eq_of_trailingBracket? {s front inner : List Char}
    (h : trailingBracket? s = some (front, inner)) : s = front ++ '[' :: inner ++ [']'] := by
  unfold trailingBracket? at h
  split at h
  · next cs hs =>
    obtain ⟨⟨i, f⟩, hr, he⟩ := Option.map_eq_some_iff.1 h
    simp only [Prod.mk.injEq] at he
    have hcs := eq_of_untilOpening hr
    have : s = (']' :: cs).reverse := by rw [← hs, List.reverse_reverse]
    rw [this, hcs, ← he.1, ← he.2]
    simp
  · simp at h

/-- Whether a bracket encloses the rank of an array. -/
def isRank (inner : List Char) : Bool :=
  inner.all fun c => c == ',' || c == '*' || c == ' '

/-! ## §3. Arguments -/

/-- The number of brackets open behind a character. -/
def depthAfter (depth : Int) (c : Char) : Int :=
  if c = '[' then depth + 1 else if c = ']' then depth - 1 else depth

/-- The stretches between the commas outside all brackets, `depth` brackets being open. -/
def topLevel (depth : Int) : List Char → List (List Char)
  | [] => [[]]
  | c :: cs =>
    if c = ',' ∧ depth = 0 then [] :: topLevel depth cs
    else extendFirst c (topLevel (depthAfter depth c) cs)

/-- The stretches between top-level commas, without the blanks around them. -/
def splitTopLevel (s : List Char) : List (List Char) :=
  (topLevel 0 s).map strip

/-- One argument: between brackets of its own, what stands there before the first comma. -/
def argumentOf (s : List Char) : List Char :=
  if s.head? = some '[' ∧ s.getLast? = some ']' then
    ((splitTopLevel (s.drop 1).dropLast).head?).getD []
  else s

/-- The arguments that a bracket encloses. -/
def argumentsOf (inner : List Char) : List Identity :=
  (splitTopLevel inner).map fun s => String.ofList (argumentOf s)

theorem length_strip_le (s : List Char) : (strip s).length ≤ s.length := by
  have h1 := (List.dropWhile_sublist isBlank (l := s)).length_le
  have h2 := (List.dropWhile_sublist isBlank (l := (s.dropWhile isBlank).reverse)).length_le
  simp only [List.length_reverse] at h2
  simp only [strip, trim, List.length_reverse]
  omega

theorem length_le_of_mem_extendFirst {c : Char} {ws : List (List Char)} {n : Nat}
    (h : ∀ w ∈ ws, w.length ≤ n) : ∀ w ∈ extendFirst c ws, w.length ≤ n + 1 := by
  intro w hw
  cases ws with
  | nil => simp [extendFirst] at hw; simp [hw]
  | cons v vs =>
    simp only [extendFirst, List.mem_cons] at hw
    rcases hw with rfl | hw
    · simpa using h v (by simp)
    · have := h w (by simp [hw])
      omega

theorem length_le_of_mem_topLevel (depth : Int) (s : List Char) :
    ∀ w ∈ topLevel depth s, w.length ≤ s.length := by
  induction s generalizing depth with
  | nil => simp [topLevel]
  | cons c cs ih =>
    unfold topLevel
    split
    · intro w hw
      rcases List.mem_cons.1 hw with rfl | hw
      · simp
      · have := ih depth w hw
        simp only [List.length_cons]
        omega
    · exact length_le_of_mem_extendFirst (ih _)

theorem length_le_of_mem_splitTopLevel {s w : List Char} (h : w ∈ splitTopLevel s) :
    w.length ≤ s.length := by
  obtain ⟨v, hv, rfl⟩ := List.mem_map.1 h
  exact Nat.le_trans (length_strip_le v) (length_le_of_mem_topLevel 0 s v hv)

theorem length_argumentOf_le (s : List Char) : (argumentOf s).length ≤ s.length := by
  unfold argumentOf
  split
  · cases h : (splitTopLevel (s.drop 1).dropLast).head? with
    | none => simp
    | some w =>
      have := length_le_of_mem_splitTopLevel (List.mem_of_mem_head? h)
      simp only [Option.getD_some]
      simp only [List.length_dropLast, List.length_drop] at this
      omega
  · exact Nat.le_refl _

/-! ## §4. Forms -/

/-- The outermost layer of an identity. -/
inductive Form where
  | void
  | byRef (element : Identity)
  | array (element : Identity) (rank : List Char)
  | named (outer : Option Identity)
  | instantiation (outer : Option Identity) (definition : Identity) (arguments : List Identity)
  deriving Repr

namespace Form

/-- The identities of the type that returns nothing. -/
def voids : List Identity :=
  ["void", "System.Void"]

/-- A name, or a generic name with the arguments that a bracket encloses. -/
def ofName (s : List Char) (bracket : Option (List Char × List Char)) : Form :=
  let outer := outerOf (shapeOf s)
  match bracket with
  | some (_ :: _, inner) =>
    if '\x60' ∈ shapeOf s then
      .instantiation outer (String.ofList (shapeOf s)) (argumentsOf inner)
    else .named outer
  | _ => .named outer

def ofIdentity (id : Identity) : Form :=
  let s := id.toList
  if id ∈ voids then .void
  else if s.getLast? = some '&' then .byRef (String.ofList s.dropLast)
  else
    match trailingBracket? s with
    | some (c :: front, inner) =>
      if isRank inner then .array (String.ofList (c :: front)) inner
      else ofName s (some (c :: front, inner))
    | bracket => ofName s bracket

/-- The identities that an identity needs before its arguments are looked at. -/
def frame : Form → List Identity
  | .void => []
  | .byRef element => [element]
  | .array element _ => [element]
  | .named outer => outer.toList
  | .instantiation outer definition _ => outer.toList ++ [definition]

/-- The arguments of an instantiation. -/
def arguments : Form → List Identity
  | .instantiation _ _ arguments => arguments
  | _ => []

theorem length_beforeLast_lt {sep : Char} {s : List Char} (h : beforeLast sep s ≠ []) :
    (beforeLast sep s).length < s.length := by
  have hd := (List.dropWhile_sublist (· ≠ sep) (l := s.reverse)).length_le
  unfold beforeLast at h ⊢
  generalize s.reverse.dropWhile (fun c => decide (c ≠ sep)) = t at h hd ⊢
  cases t with
  | nil => simp at h
  | cons c cs =>
    simp only [List.length_cons, List.length_reverse] at hd
    simp only [List.drop_one, List.tail_cons, List.length_reverse]
    omega

theorem length_outerOf_lt {s : List Char} {outer : Identity} (h : outerOf s = some outer) :
    outer.toList.length < s.length := by
  unfold outerOf at h
  split at h
  · simp at h
  · next hne =>
    simp only [Option.some.injEq] at h
    rw [← h, String.toList_ofList]
    exact length_beforeLast_lt (fun he => hne he)

theorem length_shapeOf_le (s : List Char) : (shapeOf s).length ≤ s.length :=
  length_beforeFirst_le _ _

theorem length_shapeOf_lt {s : List Char} (h : '[' ∈ s) : (shapeOf s).length < s.length := by
  unfold shapeOf beforeFirst
  induction s with
  | nil => simp at h
  | cons c cs ih =>
    by_cases hc : c = '['
    · simp [hc]
    · have hm : '[' ∈ cs := by
        rcases List.mem_cons.1 h with rfl | h
        · exact absurd rfl hc
        · exact h
      have := ih hm
      rw [List.takeWhile_cons_of_pos (by simp [hc])]
      simp only [List.length_cons]
      omega

theorem length_ofName_lt {s : List Char} {bracket : Option (List Char × List Char)}
    (hb : ∀ f i, bracket = some (f, i) → s = f ++ '[' :: i ++ [']']) :
    (∀ x ∈ (ofName s bracket).frame, x.toList.length < s.length)
      ∧ ∀ x ∈ (ofName s bracket).arguments, x.toList.length < s.length := by
  have houter : ∀ x ∈ (outerOf (shapeOf s)).toList, x.toList.length < s.length := by
    intro x hx
    have hx : outerOf (shapeOf s) = some x := by simpa using hx
    exact Nat.lt_of_lt_of_le (length_outerOf_lt hx) (length_shapeOf_le s)
  unfold ofName
  match bracket, hb with
  | none, _ => exact ⟨houter, by simp [arguments]⟩
  | some ([], _), _ => exact ⟨houter, by simp [arguments]⟩
  | some (c :: front, inner), hb =>
    have hs := hb _ _ rfl
    have hmem : '[' ∈ s := by rw [hs]; simp
    have hlen : inner.length < s.length := by rw [hs]; simp; omega
    dsimp only
    split
    · refine ⟨?_, ?_⟩
      · intro x hx
        rcases List.mem_append.1 hx with hx | hx
        · exact houter x hx
        · simp only [List.mem_singleton] at hx
          rw [hx, String.toList_ofList]
          exact length_shapeOf_lt hmem
      · intro x hx
        obtain ⟨w, hw, rfl⟩ := List.mem_map.1 hx
        rw [String.toList_ofList]
        exact Nat.lt_of_le_of_lt
          (Nat.le_trans (length_argumentOf_le w) (length_le_of_mem_splitTopLevel hw)) hlen
    · exact ⟨houter, by simp [arguments]⟩

theorem length_parts_lt (id : Identity) :
    (∀ x ∈ (ofIdentity id).frame, x.toList.length < id.toList.length)
      ∧ ∀ x ∈ (ofIdentity id).arguments, x.toList.length < id.toList.length := by
  unfold ofIdentity
  dsimp only
  split
  · simp [frame, arguments]
  · split
    · next h =>
      refine ⟨?_, by simp [arguments]⟩
      intro x hx
      simp only [frame, List.mem_singleton] at hx
      have hne : id.toList ≠ [] := by intro he; simp [he] at h
      have := List.length_pos_iff.2 hne
      rw [hx, String.toList_ofList, List.length_dropLast]
      omega
    · split
      · next c front inner hb =>
        have hs := eq_of_trailingBracket? hb
        split
        · refine ⟨?_, by simp [arguments]⟩
          intro x hx
          simp only [frame, List.mem_singleton] at hx
          rw [hx, String.toList_ofList, hs]
          simp only [List.cons_append, List.append_assoc, List.length_cons, List.length_append]
          omega
        · refine length_ofName_lt ?_
          intro f i h
          simp only [Option.some.injEq, Prod.mk.injEq] at h
          rw [← h.1, ← h.2]
          exact hs
      · next bracket _ =>
        exact length_ofName_lt fun f i h => eq_of_trailingBracket? h

/-- What an identity needs first is shorter than it. -/
theorem length_frame_lt {id x : Identity} (h : x ∈ (ofIdentity id).frame) :
    x.toList.length < id.toList.length :=
  (length_parts_lt id).1 x h

/-- An argument of an identity is shorter than it. -/
theorem length_arguments_lt {id x : Identity} (h : x ∈ (ofIdentity id).arguments) :
    x.toList.length < id.toList.length :=
  (length_parts_lt id).2 x h

end Form

end EmmyStubs.Dump
