import EmmyStubs.Mapping.Compute
import EmmyStubs.Proofs.Brackets

/-! # How type expressions are spelled

    * **`Spelled`**: the type expressions of the annotation language, from the words up.  What
      stands directly before `[]` or `|nil`, and each part of a union, has to be tight: it is no
      union and no function type, unless in parentheses.
    * **`TypeExpr.Exact`**: the brackets of an expression are nested, and it is marked as needing
      parentheses exactly if it is loose.
    * **`Spelled.exact`**: every expression is, so rendering it as a part makes it tight
      (`Exact.tight_render`).
-/

namespace EmmyStubs

open EmmyStubs.Text

/-! ## §1. Expressions -/

inductive Spelled : TypeExpr → Prop
  /-- A name, a token, or nothing at all. -/
  | word {w : String} (h : Unmarked w.toList) : Spelled ⟨w, false⟩
  | list {t : TypeExpr} (h : Spelled t) (ht : Tight (t.render true).toList) :
      Spelled ⟨t.render true ++ "[]", false⟩
  | optional {t : TypeExpr} (h : Spelled t) (ht : Tight (t.render true).toList) :
      Spelled ⟨t.render true ++ "|nil", true⟩
  | table {key value : TypeExpr} (hkey : Spelled key) (hvalue : Spelled value) :
      Spelled ⟨Lua.tableType key.text value.text, false⟩
  | iterator {t : TypeExpr} (h : Spelled t) : Spelled ⟨"fun(): " ++ t.text, true⟩
  /-- Parameters with the expressions of their types, and a result. -/
  | function {ps : List (Stub.Parameter × TypeExpr)} {result : TypeExpr}
      (hnames : ∀ e ∈ ps, Unmarked e.1.name.toList)
      (htypes : ∀ e ∈ ps, e.1.type = e.2.render true)
      (hps : ∀ e ∈ ps, Spelled e.2) (hresult : Spelled result) :
      Spelled ⟨Stub.functionType (ps.map (·.1)) result.text, true⟩
  | union {ts : List TypeExpr} (hlength : 2 ≤ ts.length) (hts : ∀ t ∈ ts, Spelled t)
      (htight : ∀ t ∈ ts, Tight (t.render true).toList) :
      Spelled ⟨" | ".intercalate (ts.map (·.render true)), true⟩

/-- The mark of an expression tells what its text is. -/
structure TypeExpr.Exact (t : TypeExpr) : Prop where
  nested : Nested t.text.toList
  loose_iff : t.needsParens = true ↔ Loose t.text.toList

/-! ## §2. Marks -/

namespace TypeExpr

variable {t key value result : TypeExpr}

theorem Exact.of_tight {text : String} (h : Tight text.toList) : Exact ⟨text, false⟩ where
  nested := h.nested
  loose_iff := iff_of_false Bool.false_ne_true h.not_loose

theorem Exact.of_loose {text : String} (hnested : Nested text.toList)
    (hloose : Loose text.toList) : Exact ⟨text, true⟩ where
  nested := hnested
  loose_iff := iff_of_true rfl hloose

/-- As a part, an exact expression is tight. -/
theorem Exact.tight_render (h : t.Exact) : Tight (t.render true).toList := by
  unfold render
  by_cases hparens : t.needsParens = true
  · have hopen : closing? '(' = some ')' := by decide
    have hgroup := h.nested.tight_group hopen
    simpa [hparens] using hgroup
  · have hloose : ¬Loose t.text.toList := fun hl => hparens (h.loose_iff.2 hl)
    simpa [hparens] using Tight.mk h.nested hloose

/-- On its own or as a part, its brackets are nested. -/
theorem Exact.nested_render (h : t.Exact) (asPart : Bool) : Nested (t.render asPart).toList := by
  cases asPart with
  | true => exact h.tight_render.nested
  | false => exact h.nested

theorem tight_brackets : Tight "[]".toList := by
  have hopen : closing? '[' = some ']' := by decide
  exact nested_nil.tight_group hopen

/-- Put behind a nested text, a bar is outside all brackets. -/
theorem openBar_behind {a : List Char} (ha : Nested a) (b : List Char) : OpenBar (a ++ '|' :: b) :=
  ⟨a, b, rfl, ha⟩

theorem Exact.list (h : Tight (t.render true).toList) : Exact ⟨t.render true ++ "[]", false⟩ := by
  have hround : ∀ c ∈ "[]".toList.head?, c ∉ functionHead := by
    intro c hc
    rw [← Option.some.inj hc]
    decide
  refine .of_tight ?_
  rw [String.toList_append]
  exact h.append tight_brackets hround

theorem Exact.optional (h : Tight (t.render true).toList) :
    Exact ⟨t.render true ++ "|nil", true⟩ := by
  have hnil : Nested "|nil".toList := by decide
  refine .of_loose ?_ (.inl ?_)
  · rw [String.toList_append]
    exact h.nested.append hnil
  · rw [String.toList_append]
    exact openBar_behind h.nested "nil".toList

theorem Exact.table (hkey : key.Exact) (hvalue : value.Exact) :
    Exact ⟨Lua.tableType key.text value.text, false⟩ := by
  have hsquare : closing? '[' = some ']' := by decide
  have hcurly : closing? '\x7b' = some '\x7d' := by decide
  have hcolon : Nested ": ".toList := by decide
  have hblank : Nested " ".toList := by decide
  have hkey := hkey.nested.group hsquare
  have hinner := ((hblank.append hkey).append (hcolon.append hvalue.nested)).append hblank
  refine .of_tight ?_
  simpa [Lua.tableType] using hinner.tight_group hcurly

/-- What begins as a function type is loose. -/
theorem loose_of_head (s : String) : Loose ("fun(" ++ s).toList := by
  rw [String.toList_append]
  exact .inr (List.prefix_append functionHead s.toList)

theorem Exact.iterator (h : t.Exact) : Exact ⟨"fun(): " ++ t.text, true⟩ := by
  have hhead : Nested "fun(): ".toList := by decide
  have htext : "fun(): " ++ t.text = "fun(" ++ ("): " ++ t.text) := by
    rw [← String.append_assoc]
    rfl
  refine .of_loose ?_ ?_
  · rw [String.toList_append]
    exact hhead.append h.nested
  · rw [htext]
    exact loose_of_head _

/-- A parameter whose name is unmarked and whose type is nested. -/
theorem nested_typed {p : Stub.Parameter} (hname : Unmarked p.name.toList)
    (htype : Nested p.type.toList) : Nested p.typed.toList := by
  have hdots : Nested "...: ".toList := by decide
  have hoptional : Nested "?: ".toList := by decide
  have hcolon : Nested ": ".toList := by decide
  unfold Stub.Parameter.typed
  split
  · rw [String.toList_append]
    exact hdots.append htype
  · split
    · rw [String.toList_append, String.toList_append]
      exact (hname.nested.append hoptional).append htype
    · rw [String.toList_append, String.toList_append]
      exact (hname.nested.append hcolon).append htype

theorem nested_returns {r : String} (h : Nested r.toList) : Nested (Stub.returns r).toList := by
  have hcolon : Nested ": ".toList := by decide
  unfold Stub.returns
  split
  · exact nested_nil
  · rw [String.toList_append]
    exact hcolon.append h

theorem Exact.function {ps : List Stub.Parameter} (hnames : ∀ p ∈ ps, Unmarked p.name.toList)
    (htypes : ∀ p ∈ ps, Nested p.type.toList) (hresult : result.Exact) :
    Exact ⟨Stub.functionType ps result.text, true⟩ := by
  have hround : closing? '(' = some ')' := by decide
  have hcomma : Nested ", ".toList := by decide
  have hword : Nested "fun".toList := by decide
  have hlist : Nested (Stub.typedList ps).toList := by
    rw [Stub.typedList, String.toList_intercalate, List.map_map]
    refine nested_intercalate hcomma fun part hpart => ?_
    obtain ⟨p, hp, rfl⟩ := List.mem_map.1 hpart
    exact nested_typed (hnames p hp) (htypes p hp)
  have hall := (hword.append (hlist.group hround)).append (nested_returns hresult.nested)
  have htext : Stub.functionType ps result.text
      = "fun(" ++ (Stub.typedList ps ++ ")" ++ Stub.returns result.text) := by
    rw [Stub.functionType, String.append_assoc, String.append_assoc, String.append_assoc]
  refine .of_loose ?_ ?_
  · simpa [Stub.functionType] using hall
  · rw [htext]
    exact loose_of_head _

/-- A union of at least two parts. -/
theorem Exact.union {ts : List TypeExpr} (hlength : 2 ≤ ts.length)
    (htight : ∀ t ∈ ts, Tight (t.render true).toList) :
    Exact ⟨" | ".intercalate (ts.map (·.render true)), true⟩ := by
  have hbar : Nested " | ".toList := by decide
  have hblank : Nested " ".toList := by decide
  have hparts : ∀ part ∈ (ts.map (·.render true)).map String.toList, Nested part := by
    intro part hpart
    obtain ⟨text, htext, rfl⟩ := List.mem_map.1 hpart
    obtain ⟨t, ht, rfl⟩ := List.mem_map.1 htext
    exact (htight t ht).nested
  refine .of_loose ?_ (.inl ?_)
  · rw [String.toList_intercalate]
    exact nested_intercalate hbar hparts
  · -- The bar behind the first part is outside all brackets.
    have hpos : 0 < ts.length := by omega
    obtain ⟨t, rest, rfl⟩ := List.exists_cons_of_length_pos hpos
    cases rest with
    | nil => exact absurd hlength (by simp)
    | cons u ts =>
      have hfirst : Nested (t.render true).toList := (htight t List.mem_cons_self).nested
      rw [String.toList_intercalate, List.map_cons, List.map_cons, List.map_cons, List.map_cons,
        List.intercalate_cons_cons, List.append_assoc]
      exact (openBar_append hfirst).2 (.inr (openBar_behind hblank _))

end TypeExpr

/-! ## §3. All expressions -/

theorem Spelled.exact {t : TypeExpr} (h : Spelled t) : t.Exact := by
  induction h with
  | word h => exact .of_tight h.tight
  | list _ ht _ => exact .list ht
  | optional _ ht _ => exact .optional ht
  | table _ _ hkey hvalue => exact .table hkey hvalue
  | iterator _ ih => exact .iterator ih
  | @function ps result hnames htypes _ _ hps hresult =>
    refine .function (fun p hp => ?_) (fun p hp => ?_) hresult
    · obtain ⟨e, he, rfl⟩ := List.mem_map.1 hp
      exact hnames e he
    · obtain ⟨e, he, rfl⟩ := List.mem_map.1 hp
      rw [htypes e he]
      exact (hps e he).nested_render true
  | union hlength _ htight _ => exact .union hlength htight

/-- As a part, every expression is tight. -/
theorem Spelled.tight {t : TypeExpr} (h : Spelled t) : Tight (t.render true).toList :=
  h.exact.tight_render

end EmmyStubs
