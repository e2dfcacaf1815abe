import EmmyStubs.Proofs.Nesting
import EmmyStubs.Proofs.Confining
import EmmyStubs.Proofs.Parsing

/-! # The text of an index, line by line

    The text of an index is a list of lines that open, close and place tables.  A line is taken
    together with the path of its table, of which the text shows the last segment only.

    * **`Tabulates`**: the lines show each of some paths once, under its parent, in order.
    * **`tabulates_ofSpaces`**: what the text of the index of some namespaces shows is their paths.
    * **`eq_of_text_eq`**: the text tells the lines, and so the paths, where no name has a line
      break in it.
    * **`text_faithful`**: the text of an index is a faithful code of its namespaces.
-/

namespace EmmyStubs.Index

/-! ## §1. Lines -/

/-- What a line shows of a table: all of it, when nothing is nested in it, or one of its ends. -/
inductive Part where
  | whole
  | head
  | foot
  deriving DecidableEq

/-- A line of the text, with the path of the table that it shows. -/
structure Line where
  path : List String
  part : Part
  comma : Bool

/-- The name of the table that a path leads to. -/
def tableName (path : List String) : String :=
  path.getLast?.getD Lua.rootTable

/-- What follows the name of a table; its last line has no name. -/
def Part.text : Part → String
  | .whole => " = \x7b\x7d"
  | .head => " = \x7b"
  | .foot => "\x7d"

def Line.text (l : Line) : String :=
  indent l.path.length ++ (if l.part = .foot then "" else tableName l.path) ++ l.part.text
    ++ (if l.comma then "," else "") ++ "\n"

mutual
/-- The lines of the table that a path leads to. -/
def tableLines (path : List String) (last : Bool) : Index → List Line
  | .node [] => [⟨path, .whole, !last⟩]
  | .node (c :: cs) =>
    ⟨path, .head, false⟩ :: (childrenLines path (c :: cs) ++ [⟨path, .foot, !last⟩])

def childrenLines (path : List String) : List (String × Index) → List Line
  | [] => []
  | (s, t) :: rest => tableLines (path ++ [s]) rest.isEmpty t ++ childrenLines path rest
end

mutual
theorem join_tableLines (path : List String) (last : Bool) : ∀ t : Index,
    String.join ((tableLines path last t).map Line.text) =
      tableText (tableName path) path.length last t
  | .node [] => by
    cases last <;> simp [tableLines, tableText, Line.text, Part.text, closing, String.append_assoc]
  | .node (c :: cs) => by
    have hcs := join_childrenLines path (c :: cs)
    cases last <;>
      simp [tableLines, tableText, Line.text, Part.text, closing, String.append_assoc, hcs]

theorem join_childrenLines (path : List String) : ∀ cs : List (String × Index),
    String.join ((childrenLines path cs).map Line.text) = childrenText (path.length + 1) cs
  | [] => by simp [childrenLines, childrenText]
  | (s, t) :: rest => by
    have ht := join_tableLines (path ++ [s]) rest.isEmpty t
    rw [tableName, List.getLast?_concat, Option.getD_some, List.length_append] at ht
    rw [childrenLines, List.map_append, String.join_append, ht, join_childrenLines path rest,
      childrenText]
    rfl
end

/-! ## §2. What lines show -/

/-- The table in which a table is placed. -/
def above (path : List String) : Option (List String) :=
  if path = [] then none else some path.dropLast

@[simp] theorem above_nil : above [] = none := rfl

@[simp] theorem above_concat (path : List String) (s : String) :
    above (path ++ [s]) = some path := by
  simp [above]

/-- The lines open and place tables where they belong, and close every table that is open;
    `around` is the innermost one. -/
def Nested (around : Option (List String)) : List Line → Prop
  | [] => around = none
  | l :: lines =>
    match l.part with
    | .whole => above l.path = around ∧ Nested around lines
    | .head => above l.path = around ∧ l.comma = false ∧ Nested (some l.path) lines
    | .foot => around = some l.path ∧ Nested (above l.path) lines

/-- The paths of the tables, in the order in which their names are in the text. -/
def named (lines : List Line) : List (List String) :=
  (lines.filter (·.part ≠ .foot)).map Line.path

/-- A sibling of the last segment of a path comes after it. -/
def Followed (P : List String → Prop) (path : List String) : Prop :=
  ∃ q s s', path = q ++ [s] ∧ s < s' ∧ P (q ++ [s'])

/-- The lines show the root table and in it a table for each of some paths. -/
structure Tabulates (P : Set (List String)) (lines : List Line) : Prop where
  nested : Nested none lines
  paths : ∀ path, path ∈ named lines ↔ path = [] ∨ path ∈ P
  once : (named lines).Nodup
  siblings : ∀ q s s', [q ++ [s], q ++ [s']].Sublist (named lines) → s < s'
  commas : ∀ l ∈ lines, l.comma = true ↔ l.part ≠ .head ∧ Followed (· ∈ P) l.path

@[simp] theorem named_append (lines lines' : List Line) :
    named (lines ++ lines') = named lines ++ named lines' := by
  simp [named]

/-! ## §3. The lines of an index -/

mutual
theorem nested_tableLines (path : List String) (last : Bool) : ∀ (t : Index) {lines : List Line},
    Nested (above path) lines → Nested (above path) (tableLines path last t ++ lines)
  | .node [], _, h => ⟨rfl, h⟩
  | .node (c :: cs), lines, h => by
    have hfoot : Nested (some path) (⟨path, .foot, !last⟩ :: lines) := ⟨rfl, h⟩
    have hcs := nested_childrenLines path (c :: cs) hfoot
    rw [tableLines, List.cons_append, List.append_assoc]
    exact ⟨rfl, rfl, hcs⟩

theorem nested_childrenLines (path : List String) :
    ∀ (cs : List (String × Index)) {lines : List Line},
      Nested (some path) lines → Nested (some path) (childrenLines path cs ++ lines)
  | [], _, h => h
  | (s, t) :: rest, lines, h => by
    have hrest := nested_childrenLines path rest h
    rw [childrenLines, List.append_assoc, ← above_concat path s]
    exact nested_tableLines (path ++ [s]) rest.isEmpty t (above_concat path s ▸ hrest)
end

theorem named_tableLines (path : List String) (last : Bool) (children : List (String × Index)) :
    named (tableLines path last (node children)) = path :: named (childrenLines path children) := by
  cases children <;> simp [tableLines, named, childrenLines]

/-- A path below children goes through one of them. -/
theorem exists_has_cons {s : String} {t : Index} {rest : List (String × Index)}
    {C : String → List String → Prop} :
    (∃ r q, C r q ∧ (node ((s, t) :: rest)).Has (r :: q)) ↔
      (∃ q, C s q ∧ t.Has q) ∨ ∃ r q, C r q ∧ (node rest).Has (r :: q) := by
  simp only [has_cons, List.mem_cons, Prod.mk.injEq, or_and_right, exists_or, and_or_left,
    and_assoc, exists_and_left, exists_eq_left]
  refine or_congr_left ⟨?_, ?_⟩
  · rintro ⟨r, q, hC, rfl, hq⟩
    exact ⟨q, hC, hq⟩
  · rintro ⟨q, hC, hq⟩
    exact ⟨s, q, hC, rfl, hq⟩

mutual
/-- The tables of an index are those to which a path leads. -/
theorem mem_named_tableLines {path p : List String} (last : Bool) : ∀ t : Index,
    p ∈ named (tableLines path last t) ↔ ∃ q, p = path ++ q ∧ t.Has q
  | .node children => by
    rw [named_tableLines, List.mem_cons, mem_named_childrenLines children]
    constructor
    · rintro (rfl | ⟨s, q, rfl, hq⟩)
      · exact ⟨[], (List.append_nil _).symm, has_nil _⟩
      · exact ⟨s :: q, rfl, hq⟩
    · rintro ⟨q, rfl, hq⟩
      cases q with
      | nil => exact .inl (List.append_nil _)
      | cons s q => exact .inr ⟨s, q, rfl, hq⟩

theorem mem_named_childrenLines {path p : List String} : ∀ children : List (String × Index),
    p ∈ named (childrenLines path children) ↔
      ∃ s q, p = path ++ s :: q ∧ (node children).Has (s :: q)
  | [] => by simp [childrenLines, named, has_cons]
  | (s, t) :: rest => by
    rw [childrenLines, named_append, List.mem_append, mem_named_tableLines _ t,
      mem_named_childrenLines rest, exists_has_cons]
    simp only [List.append_assoc, List.singleton_append]
end

/-- A path comes after the paths of the tables around it. -/
theorem lt_append_cons (path : List String) (s : String) (q : List String) :
    path < path ++ s :: q := by
  have hlt : path ++ [] < path ++ s :: q := List.append_left_lt (List.nil_lt_cons s q)
  rwa [List.append_nil] at hlt

/-- What is below a segment comes before what is below a later one. -/
theorem append_cons_lt (path : List String) {s s' : String} (h : s < s') (q q' : List String) :
    path ++ s :: q < path ++ s' :: q' :=
  List.append_left_lt (List.cons_lt_cons_iff.2 (.inl h))

theorem lt_of_append_lt {path : List String} {s s' : String} (h : path ++ [s] < path ++ [s']) :
    s < s' := by
  rcases lt_trichotomy s s' with hlt | rfl | hgt
  · exact hlt
  · exact absurd h (lt_irrefl _)
  · exact absurd h (lt_asymm (append_cons_lt path hgt [] []))

mutual
/-- The names come in the order of their paths. -/
theorem pairwise_tableLines (path : List String) (last : Bool) : ∀ {t : Index}, t.Ascending →
    (named (tableLines path last t)).Pairwise (· < ·)
  | .node children, .node siblings below => by
    rw [named_tableLines, List.pairwise_cons]
    refine ⟨fun p hp => ?_, pairwise_childrenLines path siblings below⟩
    obtain ⟨s, q, rfl, -⟩ := (mem_named_childrenLines children).1 hp
    exact lt_append_cons path s q

theorem pairwise_childrenLines (path : List String) : ∀ {children : List (String × Index)},
    children.Pairwise (·.1 < ·.1) → (∀ c ∈ children, c.2.Ascending) →
    (named (childrenLines path children)).Pairwise (· < ·)
  | [], _, _ => .nil
  | (s, t) :: rest, siblings, below => by
    obtain ⟨hfirst, hrest⟩ := List.pairwise_cons.1 siblings
    obtain ⟨ht, hbelow⟩ := List.forall_mem_cons.1 below
    rw [childrenLines, named_append, List.pairwise_append]
    refine ⟨pairwise_tableLines _ _ ht, pairwise_childrenLines path hrest hbelow,
      fun p hp p' hp' => ?_⟩
    obtain ⟨q, rfl, -⟩ := (mem_named_tableLines _ t).1 hp
    obtain ⟨s', q', rfl, hhas⟩ := (mem_named_childrenLines rest).1 hp'
    obtain ⟨t', ht', -⟩ := has_cons.1 hhas
    rw [List.append_assoc, List.singleton_append]
    exact append_cons_lt path (hfirst _ ht') q q'
end

@[simp] theorem not_followed_nil {P : List String → Prop} : ¬ Followed P [] := by
  simp [Followed]

@[simp] theorem followed_concat {P : List String → Prop} {path : List String} {s : String} :
    Followed P (path ++ [s]) ↔ ∃ s', s < s' ∧ P (path ++ [s']) := by
  constructor
  · rintro ⟨q, r, s', heq, hlt, hP⟩
    obtain ⟨rfl, rfl⟩ := List.append_singleton_inj.1 heq
    exact ⟨s', hlt, hP⟩
  · rintro ⟨s', hlt, hP⟩
    exact ⟨path, s, s', rfl, hlt, hP⟩

mutual
/-- A comma follows every sibling but the last, where `P` holds of the paths in the index. -/
theorem comma_tableLines {P : List String → Prop} {path : List String} {last : Bool} :
    ∀ {t : Index}, t.Ascending → (∀ q, P (path ++ q) ↔ t.Has q) →
    (last = false ↔ Followed P path) →
    ∀ l ∈ tableLines path last t, l.comma = true ↔ l.part ≠ .head ∧ Followed P l.path
  | .node [], _, _, hlast, l, hl => by
    rw [tableLines, List.mem_singleton] at hl
    simp [hl, hlast]
  | .node (c :: cs), .node siblings below, hP, hlast, l, hl => by
    rw [tableLines, List.mem_cons, List.mem_append, List.mem_singleton] at hl
    rcases hl with rfl | hl | rfl
    · simp
    · refine comma_childrenLines siblings below (fun s t ht q => ?_) (fun s _ s' _ hs' => ?_) l hl
      · rw [hP, has_cons_iff_of_mem siblings ht]
      · rw [hP, has_cons] at hs'
        exact hs'.imp fun t ht => ht.1
    · simp [hlast]

/-- The children may be the last ones of several; `P` tells of them all, and of no later one. -/
theorem comma_childrenLines {P : List String → Prop} {path : List String} :
    ∀ {children : List (String × Index)}, children.Pairwise (·.1 < ·.1) →
    (∀ c ∈ children, c.2.Ascending) →
    (∀ s t, (s, t) ∈ children → ∀ q, P (path ++ s :: q) ↔ t.Has q) →
    (∀ s, (∃ t, (s, t) ∈ children) → ∀ s', s < s' → P (path ++ [s']) → ∃ t, (s', t) ∈ children) →
    ∀ l ∈ childrenLines path children, l.comma = true ↔ l.part ≠ .head ∧ Followed P l.path
  | [], _, _, _, _, l, hl => by simp [childrenLines] at hl
  | (s, t) :: rest, siblings, below, hP, hlater, l, hl => by
    obtain ⟨hfirst, hrest⟩ := List.pairwise_cons.1 siblings
    obtain ⟨ht, hbelow⟩ := List.forall_mem_cons.1 below
    -- What is later than a segment of the children is no earlier one of them.
    have hdrop : ∀ r s', s ≤ r → r < s' → (∃ t', (s', t') ∈ (s, t) :: rest) →
        ∃ t', (s', t') ∈ rest := by
      rintro r s' hle hlt ⟨t', ht'⟩
      rcases List.mem_cons.1 ht' with heq | ht'
      · cases heq
        exact absurd hlt (not_lt_of_ge hle)
      · exact ⟨t', ht'⟩
    rw [childrenLines, List.mem_append] at hl
    rcases hl with hl | hl
    · refine comma_tableLines ht (fun q => ?_) ?_ l hl
      · rw [List.append_assoc]
        exact hP s t List.mem_cons_self q
      · rw [followed_concat]
        constructor
        · intro hne
          cases rest with
          | nil => cases hne
          | cons c rest =>
            have hc : c ∈ (s, t) :: c :: rest := by simp
            exact ⟨c.1, hfirst c List.mem_cons_self, (hP c.1 c.2 hc []).2 (has_nil _)⟩
        · rintro ⟨s', hlt, hs'⟩
          obtain ⟨t', ht'⟩ :=
            hdrop s s' (le_refl s) hlt (hlater s ⟨t, List.mem_cons_self⟩ s' hlt hs')
          cases rest with
          | nil => cases ht'
          | cons c rest => rfl
    · refine comma_childrenLines hrest hbelow (fun r t' ht' => hP r t' (List.mem_cons_of_mem _ ht'))
        (fun r hr s' hlt hs' => ?_) l hl
      obtain ⟨t', ht'⟩ := hr
      exact hdrop r s' (le_of_lt (hfirst _ ht')) hlt
        (hlater r ⟨t', List.mem_cons_of_mem _ ht'⟩ s' hlt hs')
end

/-- The text of an index shows its paths. -/
theorem tabulates_tableLines {t : Index} {P : Set (List String)} (h : t.Ascending)
    (hP : ∀ p, t.Has p ↔ p = [] ∨ p ∈ P) : Tabulates P (tableLines [] true t) where
  nested := by
    have hdone : Nested (above []) [] := rfl
    exact List.append_nil (tableLines [] true t) ▸ nested_tableLines [] true t hdone
  paths p := by
    rw [mem_named_tableLines, ← hP]
    simp
  once := (pairwise_tableLines [] true h).imp fun hlt => ne_of_lt hlt
  siblings q s s' hsub := by
    have hpair := (pairwise_tableLines [] true h).sublist hsub
    exact lt_of_append_lt (List.rel_of_pairwise_cons hpair List.mem_cons_self)
  commas l hl := by
    have hlast : true = false ↔ Followed t.Has [] := by simp
    have hcomma := comma_tableLines h (fun q => by rw [List.nil_append]) hlast l hl
    -- No sibling is the root.
    have hiff : Followed t.Has l.path ↔ Followed (· ∈ P) l.path := by
      simp only [Followed, hP, List.append_eq_nil_iff, List.cons_ne_nil, and_false, false_or]
    rw [hcomma, hiff]

/-! ## §4. Reading the lines back -/

theorem toList_indent (depth : Nat) : (indent depth).toList = List.replicate (4 * depth) ' ' := by
  rw [indent]
  induction 4 * depth with
  | zero => rfl
  | succ n ih =>
    rw [String.pushn_eq_repeat_push] at ih ⊢
    rw [Nat.repeat, String.toList_push, ih, List.replicate_succ']

theorem length_eq_of_above_eq {path path' : List String} (h : above path = above path') :
    path.length = path'.length := by
  rcases List.eq_nil_or_concat' path with rfl | ⟨q, s, rfl⟩ <;>
    rcases List.eq_nil_or_concat' path' with rfl | ⟨q', s', rfl⟩ <;> simp_all

theorem eq_of_above_eq {path path' : List String} (h : above path = above path')
    (hname : tableName path = tableName path') : path = path' := by
  rcases List.eq_nil_or_concat' path with rfl | ⟨q, s, rfl⟩ <;>
    rcases List.eq_nil_or_concat' path' with rfl | ⟨q', s', rfl⟩ <;> simp_all [tableName]

namespace Line

/-- The characters of a line before its end. -/
def chars (l : Line) : List Char :=
  List.replicate (4 * l.path.length) ' '
    ++ (if l.part = .foot then [] else (tableName l.path).toList)
    ++ (l.part.text.toList ++ if l.comma then [','] else [])

theorem toList_text (l : Line) : l.text.toList = l.chars ++ ['\n'] := by
  obtain ⟨path, part, comma⟩ := l
  cases part <;> cases comma <;> simp [text, chars, toList_indent, Part.text]

theorem getLast?_chars (l : Line) :
    l.chars.getLast? = some (if l.comma then ',' else if l.part = .head then '{' else '}') := by
  obtain ⟨path, part, comma⟩ := l
  cases part <;> cases comma <;> simp [chars, Part.text]

theorem brace_mem_chars_iff (l : Line) : '{' ∈ l.chars ↔ l.part ≠ .foot := by
  obtain ⟨path, part, comma⟩ := l
  cases part <;> cases comma <;> simp [chars, Part.text]

theorem newline_notMem_chars {l : Line} (h : l.part ≠ .foot → '\n' ∉ (tableName l.path).toList) :
    '\n' ∉ l.chars := by
  obtain ⟨path, part, comma⟩ := l
  cases part <;> cases comma <;> simp_all [chars, Part.text]

/-- The line opens, places or closes a table inside the one `around` it. -/
def Fits (around : Option (List String)) (l : Line) : Prop :=
  (l.part = .foot → around = some l.path) ∧ (l.part ≠ .foot → above l.path = around) ∧
    (l.part = .head → l.comma = false)

/-- Lines in the same place that read the same are the same. -/
theorem eq_of_chars_eq {around : Option (List String)} {l l' : Line} (h : l.Fits around)
    (h' : l'.Fits around) (heq : l.chars = l'.chars) : l = l' := by
  have hlast := congrArg List.getLast? heq
  rw [getLast?_chars, getLast?_chars] at hlast
  have hbrace : l.part ≠ .foot ↔ l'.part ≠ .foot := by
    rw [← brace_mem_chars_iff, ← brace_mem_chars_iff, heq]
  obtain ⟨path, part, comma⟩ := l
  obtain ⟨path', part', comma'⟩ := l'
  obtain ⟨hfoot, hplaced, hhead⟩ := h
  obtain ⟨hfoot', hplaced', hhead'⟩ := h'
  -- The last characters tell the comma and the part.
  have hcomma : comma = comma' := by
    cases part <;> cases part' <;> cases comma <;> cases comma' <;> simp_all
  have hpart : part = part' := by
    cases part <;> cases part' <;> cases comma <;> simp_all
  subst hcomma hpart
  -- What is left is the indentation and the name.
  rw [chars, chars, List.append_cancel_right_eq] at heq
  by_cases hp : part = .foot
  · have hpath : path = path' := Option.some_inj.1 ((hfoot hp).symm.trans (hfoot' hp))
    rw [hpath]
  · have habove : above path = above path' := (hplaced hp).trans (hplaced' hp).symm
    rw [if_neg hp, if_neg hp, length_eq_of_above_eq habove, List.append_cancel_left_eq,
      String.toList_inj] at heq
    rw [eq_of_above_eq habove heq]

/-- A line behind which the lines nest fits, and what is open behind it is told by its path. -/
theorem nested_cons_iff {around : Option (List String)} {l : Line} {lines : List Line} :
    Nested around (l :: lines) ↔ l.Fits around ∧
      Nested (if l.part = .head then some l.path else above l.path) lines := by
  obtain ⟨path, part, comma⟩ := l
  cases part with
  | whole =>
    simp only [Nested, Fits]
    constructor
    · rintro ⟨rfl, h⟩
      simpa using h
    · rintro ⟨h, h'⟩
      simp_all
  | head => simp [Nested, Fits, and_assoc]
  | foot => simp [Nested, Fits]

end Line

/-- The text tells the lines, where no name has a line break in it. -/
theorem eq_of_text_eq {around : Option (List String)} {lines lines' : List Line}
    (h : Nested around lines) (h' : Nested around lines')
    (hname : ∀ path ∈ named lines, '\n' ∉ (tableName path).toList)
    (hname' : ∀ path ∈ named lines', '\n' ∉ (tableName path).toList)
    (heq : String.join (lines.map Line.text) = String.join (lines'.map Line.text)) :
    lines = lines' := by
  induction lines generalizing around lines' with
  | nil =>
    cases lines' with
    | nil => rfl
    | cons l' lines' => simp [← String.toList_inj, Line.toList_text] at heq
  | cons l lines ih =>
    cases lines' with
    | nil => simp [← String.toList_inj, Line.toList_text] at heq
    | cons l' lines' =>
      obtain ⟨hfits, hrest⟩ := Line.nested_cons_iff.1 h
      obtain ⟨hfits', hrest'⟩ := Line.nested_cons_iff.1 h'
      simp only [List.map_cons, String.join_cons, ← String.toList_inj, String.toList_append,
        Line.toList_text, List.append_assoc, List.singleton_append] at heq
      have hbreak : '\n' ∉ l.chars := Line.newline_notMem_chars fun hp =>
        hname l.path (by simp [named, hp])
      have hbreak' : '\n' ∉ l'.chars := Line.newline_notMem_chars fun hp =>
        hname' l'.path (by simp [named, hp])
      have hchars : l.chars = l'.chars := by
        have hfirst := congrArg (Text.beforeFirst '\n') heq
        rwa [Text.beforeFirst_append hbreak, Text.beforeFirst_append hbreak'] at hfirst
      obtain rfl : l = l' := Line.eq_of_chars_eq hfits hfits' hchars
      have htail := List.tail_eq_of_cons_eq (List.append_cancel_left heq)
      rw [ih hrest hrest' (fun p hp => hname p ?_) (fun p hp => hname' p ?_)
        (String.toList_inj.1 htail)]
      all_goals
        rw [← List.singleton_append, named_append]
        exact List.mem_append_right _ hp

/-! ## §5. A faithful code -/

theorem newline_notMem_tableName {spaces : List (Option String)} {path : List String}
    (h : ∀ space, some space ∈ spaces → '\n' ∉ space.toList)
    (hpath : path = [] ∨ path ∈ paths spaces) : '\n' ∉ (tableName path).toList := by
  rcases List.eq_nil_or_concat' path with rfl | ⟨q, s, rfl⟩
  · simp [tableName, Lua.rootTable]
  · obtain ⟨-, space, hspace, hprefix⟩ := hpath.resolve_left (by simp)
    have hs : s ∈ segmentsOf space := hprefix.subset (by simp)
    cases space with
    | none => cases hs
    | some space =>
      rw [segmentsOf] at hs
      split at hs
      · cases hs
      · obtain ⟨w, hw, rfl⟩ := List.mem_map.1 hs
        have hcount := Text.count_le_of_mem_segments (c := '\n') hw
        rw [List.count_eq_zero_of_not_mem (h space hspace), Nat.le_zero] at hcount
        simpa [tableName] using List.count_eq_zero.1 hcount

theorem text_eq_join (t : Index) :
    t.text = String.join ((tableLines [] true t).map Line.text) :=
  (join_tableLines [] true t).symm

theorem tabulates_ofSpaces (spaces : List (Option String)) :
    Tabulates (paths spaces) (tableLines [] true (ofSpaces spaces)) :=
  tabulates_tableLines (has_ofSpaces_and_ascending spaces).2 (has_ofSpaces_and_ascending spaces).1

/-- The text of the index of some namespaces shows their paths, each once, in order and under its
    parent.  It depends on nothing but the paths, and tells them where no namespace has a line
    break in it. -/
theorem text_faithful (spaces spaces' : List (Option String)) :
    (∃ lines, (ofSpaces spaces).text = String.join (lines.map Line.text) ∧
        Tabulates (paths spaces) lines) ∧
      (paths spaces = paths spaces' → (ofSpaces spaces).text = (ofSpaces spaces').text) ∧
      ((∀ space, some space ∈ spaces ++ spaces' → '\n' ∉ space.toList) →
        paths spaces ≠ paths spaces' → (ofSpaces spaces).text ≠ (ofSpaces spaces').text) := by
  have hlines := tabulates_ofSpaces spaces
  have hlines' := tabulates_ofSpaces spaces'
  refine ⟨⟨_, text_eq_join _, hlines⟩, fun heq => ?_, fun hbreak hne heq => hne ?_⟩
  · obtain ⟨hhas, hascending⟩ := has_ofSpaces_and_ascending spaces
    obtain ⟨hhas', hascending'⟩ := has_ofSpaces_and_ascending spaces'
    rw [eq_of_has_iff hascending hascending' fun p => by rw [hhas, hhas', heq]]
  · rw [text_eq_join, text_eq_join] at heq
    have hsame := eq_of_text_eq hlines.nested hlines'.nested
      (fun p hp => newline_notMem_tableName
        (fun space h => hbreak space (List.mem_append_left _ h)) ((hlines.paths p).1 hp))
      (fun p hp => newline_notMem_tableName
        (fun space h => hbreak space (List.mem_append_right _ h)) ((hlines'.paths p).1 hp))
      heq
    -- The same lines name the same paths.
    ext p
    have hiff : (p = [] ∨ p ∈ paths spaces) ↔ (p = [] ∨ p ∈ paths spaces') := by
      rw [← hlines.paths, ← hlines'.paths, hsame]
    rcases eq_or_ne p [] with rfl | hp
    · simp [paths]
    · simpa [hp] using hiff

/-- A name that spells the end of its line reads as two names. -/
example : (ofSpaces [some "a = \x7b\x7d,\n    b"]).text = (ofSpaces [some "b", some "a"]).text := by
  decide +kernel

end EmmyStubs.Index
