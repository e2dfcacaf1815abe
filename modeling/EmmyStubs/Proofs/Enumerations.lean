import EmmyStubs.Proofs.Linewise
import EmmyStubs.Proofs.Parsing
import EmmyStubs.Stub.Printer

/-! # Enumerations that are read back

    The text of an enumeration says what was declared, whatever the names of its members are: a
    member's number is the last word of its line, and has no comma in it.

    * **`signedDecimal`**: the integer that a decimal spelling spells.
    * **`EnumMember.ofLine`**: a member from its line, which a comma may end or not.
    * **`EnumDeclaration.ofText`**: an enumeration from its text.
    * **`text?_eq_some_iff`**: an enumeration has a text just if all its values can be written, and
      which one.
    * **`enumText_readable`**: nothing of an enumeration is lost in its text.
-/

namespace EmmyStubs.Stub

open EmmyStubs.Text

/-! ## §1. Integers -/

/-- The integer that some digits spell, with a sign in front if it is negative. -/
def signedDecimal : List Char → Int
  | '-' :: ds => -(Nat.ofDigitChars 10 ds 0 : Int)
  | ds => (Nat.ofDigitChars 10 ds 0 : Int)

theorem toList_toString_int (n : Int) : (toString n).toList
    = if 0 ≤ n then Nat.toDigits 10 n.toNat else '-' :: Nat.toDigits 10 (-n).toNat := by
  rw [Int.toString_eq_repr, Int.repr_eq_if]
  split <;> simp

theorem mem_toString_int {n : Int} {c : Char} (h : c ∈ (toString n).toList) :
    c = '-' ∨ c.isDigit = true := by
  rw [toList_toString_int] at h
  split at h
  · exact .inr (Nat.isDigit_of_mem_toDigits (by decide) (by decide) h)
  · rcases List.mem_cons.1 h with rfl | h
    · exact .inl rfl
    · exact .inr (Nat.isDigit_of_mem_toDigits (by decide) (by decide) h)

theorem signedDecimal_toString (n : Int) : signedDecimal (toString n).toList = n := by
  rw [toList_toString_int]
  split
  · next hn =>
    -- No digit is a sign.
    have hdigits : signedDecimal (Nat.toDigits 10 n.toNat)
        = (Nat.ofDigitChars 10 (Nat.toDigits 10 n.toNat) 0 : Int) := by
      unfold signedDecimal
      split
      · next ds hds =>
        have hsign : '-' ∈ Nat.toDigits 10 n.toNat := hds ▸ List.mem_cons_self
        exact absurd (Nat.isDigit_of_mem_toDigits (by decide) (by decide) hsign) (by decide)
      · rfl
    rw [hdigits, Nat.ofDigitChars_ten_toDigits]
    omega
  · rw [signedDecimal, Nat.ofDigitChars_ten_toDigits]
    omega

/-! ## §2. Members -/

/-- A member from its line.  The number is the last word, up to the comma that may end the line, and
    the name is what is left in front without the indentation and the equals sign. -/
def EnumMember.ofLine (l : String) : EnumMember where
  name := String.ofList ((beforeLast ' ' l.toList).drop 4).dropLast.dropLast
  value := signedDecimal (beforeFirst ',' (afterLast ' ' l.toList))

namespace EnumMember

variable {m : EnumMember}

/-- The line of a member with all digits of its value. -/
def fullLine (m : EnumMember) : String :=
  "    " ++ m.name ++ " = " ++ toString m.value

theorem line?_eq_some_iff {l : String} :
    m.line? = some l ↔ Number.isWritable m.value = true ∧ m.fullLine = l := by
  simp only [line?, fullLine, Option.map_eq_some_iff, Number.decimalText?_eq_some_iff]
  constructor
  · rintro ⟨digits, ⟨hwritable, rfl⟩, rfl⟩
    exact ⟨hwritable, rfl⟩
  · rintro ⟨hwritable, rfl⟩
    exact ⟨_, ⟨hwritable, rfl⟩, rfl⟩

/-- Members have lines if all of their values can be written. -/
theorem mapM_line?_eq_some_iff {ms : List EnumMember} {ls : List String} :
    ms.mapM line? = some ls ↔
      (∀ m ∈ ms, Number.isWritable m.value = true) ∧ ms.map fullLine = ls := by
  induction ms generalizing ls with
  | nil => simp [List.mapM_nil, pure]
  | cons m ms ih =>
    rw [List.mapM_cons, List.forall_mem_cons]
    constructor
    · intro h
      obtain ⟨l, hl, h⟩ := Option.bind_eq_some_iff.1 h
      obtain ⟨rest, hrest, h⟩ := Option.bind_eq_some_iff.1 h
      obtain ⟨hm, rfl⟩ := line?_eq_some_iff.1 hl
      obtain ⟨hms, rfl⟩ := ih.1 hrest
      exact ⟨⟨hm, hms⟩, Option.some.inj h⟩
    · rintro ⟨⟨hm, hms⟩, rfl⟩
      rw [line?_eq_some_iff.2 ⟨hm, rfl⟩, ih.2 ⟨hms, rfl⟩]
      rfl

theorem ofLine_fullLine_append (m : EnumMember) {comma : String}
    (hcomma : comma = "" ∨ comma = ",") : ofLine (m.fullLine ++ comma) = m := by
  obtain ⟨name, value⟩ := m
  have hblank : ' ' ∉ (toString value).toList := fun h =>
    absurd (mem_toString_int h) (by decide)
  have hnocomma : ',' ∉ (toString value).toList := fun h =>
    absurd (mem_toString_int h) (by decide)
  have hlast : ' ' ∉ (toString value).toList ++ comma.toList := by
    rcases hcomma with rfl | rfl <;> simpa using hblank
  have hchars : (fullLine ⟨name, value⟩ ++ comma).toList
      = (' ' :: ' ' :: ' ' :: ' ' :: name.toList ++ [' ', '='])
        ++ ' ' :: ((toString value).toList ++ comma.toList) := by
    simp [fullLine]
  have hvalue : beforeFirst ',' ((toString value).toList ++ comma.toList)
      = (toString value).toList := by
    rcases hcomma with rfl | rfl
    · simpa using beforeFirst_of_notMem hnocomma
    · exact beforeFirst_append hnocomma []
  unfold ofLine
  rw [hchars, beforeLast_append _ hlast, afterLast_append _ hlast, hvalue, signedDecimal_toString]
  simp

theorem fullLine_append_ne_empty (m : EnumMember) (rest : String) : m.fullLine ++ rest ≠ "" := by
  simp [fullLine]

theorem unbroken_fullLine (h : Unbroken m.name) : Unbroken m.fullLine := by
  have hvalue : Unbroken (toString m.value) := fun hbreak =>
    absurd (mem_toString_int hbreak) (by decide)
  simp only [fullLine, unbroken_append, h, hvalue, and_true]
  decide

end EnumMember

/-- The lines of some members: a comma ends every line but the last, and without members there is an
    empty line. -/
def memberLines : List EnumMember → List String
  | [] => [""]
  | [m] => [m.fullLine]
  | m :: ms => (m.fullLine ++ ",") :: memberLines ms

theorem memberLines_cons_cons (m m' : EnumMember) (ms : List EnumMember) :
    memberLines (m :: m' :: ms) = (m.fullLine ++ ",") :: memberLines (m' :: ms) := rfl

theorem ofLines_memberLines (ms : List EnumMember) :
    ofLines (memberLines ms) = ",\n".intercalate (ms.map EnumMember.fullLine) ++ "\n" := by
  have hbreak : ",\n" = "," ++ "\n" := by decide
  induction ms with
  | nil => simp [memberLines]
  | cons m ms ih =>
    cases ms with
    | nil => simp [memberLines]
    | cons m' ms =>
      rw [memberLines_cons_cons, ofLines_cons, ih, List.map_cons, List.map_cons, List.map_cons,
        String.intercalate_cons_cons, hbreak]
      simp only [String.append_assoc]

theorem unbroken_memberLines {ms : List EnumMember} (h : ∀ m ∈ ms, Unbroken m.name) :
    ∀ l ∈ memberLines ms, Unbroken l := by
  induction ms with
  | nil => decide
  | cons m ms ih =>
    obtain ⟨hm, hms⟩ := List.forall_mem_cons.1 h
    have hline := EnumMember.unbroken_fullLine hm
    cases ms with
    | nil => simpa [memberLines] using hline
    | cons m' ms =>
      have hcomma : Unbroken (m.fullLine ++ ",") := unbroken_append.2 ⟨hline, by decide⟩
      exact List.forall_mem_cons.2 ⟨hcomma, ih hms⟩

/-- The line that stands for no members is the only empty one. -/
theorem map_ofLine_memberLines (ms : List EnumMember) :
    ((memberLines ms).filter (· ≠ "")).map EnumMember.ofLine = ms := by
  induction ms with
  | nil => rfl
  | cons m ms ih =>
    cases ms with
    | nil =>
      have hread := m.ofLine_fullLine_append (.inl rfl)
      have hne := m.fullLine_append_ne_empty ""
      rw [String.append_empty] at hread hne
      rw [memberLines, List.filter_cons_of_pos (by simpa using hne), List.map_cons, hread]
      rfl
    | cons m' ms =>
      rw [memberLines_cons_cons, List.filter_cons_of_pos (by simp), List.map_cons, ih,
        m.ofLine_fullLine_append (.inr rfl)]

/-! ## §3. Enumerations -/

namespace EnumDeclaration

/-- The texts of which an enumeration is made. -/
def strings (d : EnumDeclaration) : List String :=
  d.name :: d.members.map EnumMember.name

def lines (d : EnumDeclaration) : List String :=
  ("---@enum " ++ d.name) :: ("CS." ++ d.name ++ " = \x7b") :: memberLines d.members ++ ["\x7d"]

/-- An enumeration from its text: its name is on the first line, and its members are between the
    braces. -/
def ofText (s : String) : EnumDeclaration where
  name := String.ofList (((linesOf s).headD "").toList.drop 9)
  members := (((linesOf s).drop 2).dropLast.filter (· ≠ "")).map EnumMember.ofLine

theorem text?_eq_some_iff {d : EnumDeclaration} {text : String} :
    d.text? = some text ↔
      (∀ m ∈ d.members, Number.isWritable m.value = true) ∧ ofLines d.lines = text := by
  have hopen : " = \x7b\n" = " = \x7b" ++ "\n" := by decide
  have hclose : "\n\x7d\n" = "\n" ++ ("\x7d" ++ "\n") := by decide
  -- The lines, put together, are the text around those of the members.
  have hlines : ofLines d.lines = "---@enum " ++ d.name ++ "\n" ++ Lua.rootTable ++ "." ++ d.name
      ++ " = \x7b\n" ++ ",\n".intercalate (d.members.map EnumMember.fullLine) ++ "\n\x7d\n" := by
    rw [lines, List.cons_append, List.cons_append, ofLines_cons, ofLines_cons, ofLines_append,
      ofLines_memberLines, ofLines_cons, ofLines_nil, hopen, hclose]
    simp only [String.append_assoc, String.append_empty]
    rfl
  rw [hlines]
  unfold text?
  constructor
  · intro h
    obtain ⟨ls, hls, htext⟩ := Option.bind_eq_some_iff.1 h
    obtain ⟨hwritable, rfl⟩ := EnumMember.mapM_line?_eq_some_iff.1 hls
    exact ⟨hwritable, Option.some.inj htext⟩
  · rintro ⟨hwritable, rfl⟩
    rw [EnumMember.mapM_line?_eq_some_iff.2 ⟨hwritable, rfl⟩]
    rfl

/-- An enumeration has a text if all of its values can be written. -/
theorem isSome_text?_iff {d : EnumDeclaration} :
    d.text?.isSome ↔ ∀ m ∈ d.members, Number.isWritable m.value = true := by
  simp only [Option.isSome_iff_exists, text?_eq_some_iff, exists_and_left, exists_eq', and_true]

theorem unbroken_lines {d : EnumDeclaration} (h : ∀ s ∈ d.strings, Unbroken s) :
    ∀ l ∈ d.lines, Unbroken l := by
  obtain ⟨hname, hmembers⟩ := List.forall_mem_cons.1 h
  have hhead : Unbroken ("---@enum " ++ d.name) := unbroken_append.2 ⟨by decide, hname⟩
  have htable : Unbroken ("CS." ++ d.name ++ " = \x7b") := by
    simp only [unbroken_append, hname, and_true]
    decide
  have hmemberLines := unbroken_memberLines (List.forall_mem_map.1 hmembers)
  intro l hl
  simp only [lines, List.cons_append, List.mem_cons, List.mem_append, List.not_mem_nil,
    or_false] at hl
  rcases hl with rfl | rfl | hl | rfl
  · exact hhead
  · exact htable
  · exact hmemberLines l hl
  · decide

theorem ofText_ofLines {d : EnumDeclaration} (h : ∀ s ∈ d.strings, Unbroken s) :
    ofText (ofLines d.lines) = d := by
  have hlines : linesOf (ofLines d.lines) = d.lines := linesOf_ofLines (unbroken_lines h)
  have hname : (("---@enum " ++ d.name).toList.drop 9) = d.name.toList := by
    simp
  have hmembers : (d.lines.drop 2).dropLast = memberLines d.members := by
    simp [lines]
  have hhead : d.lines.headD "" = "---@enum " ++ d.name := rfl
  unfold ofText
  rw [hlines, hmembers, map_ofLine_memberLines, hhead, hname, String.ofList_toList]

/-- The text of an enumeration tells its name, its members, their numbers and their order.  It is
    missing just where a number has too many digits. -/
theorem enumText_readable {d e : EnumDeclaration} (hd : ∀ s ∈ d.strings, Unbroken s)
    (he : ∀ s ∈ e.strings, Unbroken s) :
    ((Declaration.enum d).text?.isSome ↔ ∀ m ∈ d.members, Number.isWritable m.value = true) ∧
      (∀ text, (Declaration.enum d).text? = some text → ofText text = d) ∧
      ∀ text, (Declaration.enum d).text? = some text → (Declaration.enum e).text? = some text →
        d = e := by
  have hread : ∀ {d : EnumDeclaration} {text : String}, (∀ s ∈ d.strings, Unbroken s) →
      (Declaration.enum d).text? = some text → ofText text = d := by
    intro d text h htext
    obtain ⟨-, rfl⟩ := text?_eq_some_iff.1 htext
    exact ofText_ofLines h
  refine ⟨isSome_text?_iff, fun text htext => hread hd htext, ?_⟩
  intro text htext htext'
  rw [← hread hd htext, hread he htext']

/-- A member whose name looks like another member. -/
def confusing : EnumDeclaration where
  name := "Mode = \x7b"
  members := [⟨"A = 1,", 2⟩, ⟨"\x7d", -3⟩]

/-- The members that a hasty reader finds in it. -/
def confused : EnumDeclaration where
  name := "Mode = \x7b"
  members := [⟨"A", 1⟩, ⟨"", 2⟩, ⟨"\x7d", -3⟩]

theorem confusingText_ne :
    (∀ s ∈ confusing.strings, Unbroken s) ∧ (∀ s ∈ confused.strings, Unbroken s) ∧
      (Declaration.enum confusing).text?.isSome ∧
      (Declaration.enum confusing).text? ≠ (Declaration.enum confused).text? := by
  have hconfusing : ∀ s ∈ confusing.strings, Unbroken s := by decide
  have hconfused : ∀ s ∈ confused.strings, Unbroken s := by decide
  obtain ⟨hsome, -, hequal⟩ := enumText_readable hconfusing hconfused
  have htext : (Declaration.enum confusing).text?.isSome := hsome.2 (by decide +kernel)
  refine ⟨hconfusing, hconfused, htext, fun hsame => ?_⟩
  obtain ⟨text, htext⟩ := Option.isSome_iff_exists.1 htext
  exact absurd (hequal text htext (hsame ▸ htext)) (by decide)

end EnumDeclaration

end EmmyStubs.Stub
