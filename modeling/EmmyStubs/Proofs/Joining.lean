import Mathlib.Data.List.TakeWhile
import EmmyStubs.Proofs.Parsing

/-! # Arguments that are joined

    The arguments of a generic type are read back from any text that they can stand in.

    * **`Argument`**: a text that can be an argument.  Every reference is one
      (`Reference.argument`).
    * **`Written`**: an argument as it stands between commas: plain, or between brackets of its own
      and perhaps with a qualifier, and with blanks around it and around the brackets.
    * **`argumentsOf_join`**: the texts of some arguments, joined with commas, are read as those
      arguments, in order.
-/

namespace EmmyStubs.Text

/-! ## §1. Blanks around a text -/

/-- Blanks in front of a text, and behind it. -/
structure Padding where
  before : List Char
  after : List Char
  blank_before : before.all isBlank = true
  blank_after : after.all isBlank = true

namespace Padding

def around (p : Padding) (s : List Char) : List Char :=
  p.before ++ (s ++ p.after)

theorem strip_around (p : Padding) (s : List Char) : strip (p.around s) = strip s := by
  have hblank : ∀ c ∈ p.after, isBlank c = true := List.all_eq_true.1 p.blank_after
  have hfront : (p.around s).dropWhile isBlank = (s ++ p.after).dropWhile isBlank :=
    List.dropWhile_append_of_pos (List.all_eq_true.1 p.blank_before)
  have hbehind : ∀ t : List Char,
      (t ++ p.after).reverse.dropWhile isBlank = t.reverse.dropWhile isBlank := by
    intro t
    rw [List.reverse_append]
    exact List.dropWhile_append_of_pos fun c hc => hblank c (List.mem_reverse.1 hc)
  rw [strip, strip, trim, trim, hfront, List.dropWhile_append]
  split
  · next hempty =>
    -- The text is blank itself, and so is all that stands behind it.
    have hafter : p.after.dropWhile isBlank = [] := List.dropWhile_eq_nil_iff.2 hblank
    rw [hafter, List.isEmpty_iff.1 hempty]
  · rw [hbehind]

end Padding

end EmmyStubs.Text

namespace EmmyStubs.Dump

open EmmyStubs.Text

/-- Blanks are neither brackets nor commas. -/
theorem paired_of_isBlank {commas : Bool} {s : List Char} (h : s.all isBlank = true) :
    Paired commas s := by
  refine .of_forall fun c hc => ?_
  have hblank := List.all_eq_true.1 h c hc
  refine ⟨?_, ?_, ?_⟩
  all_goals
    rintro rfl
    exact absurd hblank (by decide)

theorem Paired.around {commas : Bool} {s : List Char} (h : Paired commas s) (p : Padding) :
    Paired commas (p.around s) :=
  (paired_of_isBlank p.blank_before).append (h.append (paired_of_isBlank p.blank_after))

/-! ## §2. Arguments -/

/-- The text of an argument: a piece that is not empty, and that does not begin with a bracket. -/
structure Argument where
  text : List Char
  ne : text ≠ []
  piece : Piece text
  head : text.head? ≠ some '['

def Argument.identity (a : Argument) : Identity :=
  String.ofList a.text

def Reference.argument (t : Reference) : Argument where
  text := t.print
  ne := t.print_ne_nil
  piece := t.piece_print
  head := t.head?_print_ne

theorem Argument.identity_ne (a : Argument) : a.identity ≠ "" := by
  intro hempty
  have htext := congrArg String.toList hempty
  rw [identity, String.toList_ofList] at htext
  exact a.ne htext

/-- An argument between commas.  Where it has brackets of its own, there may be blanks inside them
    and outside. -/
structure Written where
  argument : Argument
  style : Style
  inside : Padding
  outside : Padding

namespace Written

def print (w : Written) : List Char :=
  w.outside.around (w.style.print (w.inside.around w.argument.text))

theorem paired_print (w : Written) : Paired false w.print :=
  ((w.argument.piece.paired.around w.inside).style w.style).around w.outside

/-- Neither the blanks nor the brackets nor the qualifier are taken for a part of the argument. -/
theorem argumentOf_print (w : Written) : argumentOf (strip w.print) = w.argument.text := by
  have htext : strip (w.inside.around w.argument.text) = w.argument.text := by
    rw [w.inside.strip_around, w.argument.piece.strip]
  have hread : argumentOf (strip (w.style.print (w.inside.around w.argument.text)))
      = strip (w.inside.around w.argument.text) := by
    refine argumentOf_strip_style (w.argument.piece.paired.around w.inside) ?_ w.style
    rw [htext]
    exact w.argument.head
  rw [print, w.outside.strip_around, hread, htext]

end Written

/-! ## §3. Arguments behind one another -/

/-- The texts of some arguments, with commas between them. -/
def join (ws : List Written) : List Char :=
  [','].intercalate (ws.map Written.print)

theorem splitTopLevel_join {ws : List Written} (h : ws ≠ []) :
    splitTopLevel (join ws) = ws.map fun w => strip w.print := by
  induction ws with
  | nil => exact absurd rfl h
  | cons w ws ih =>
    cases ws with
    | nil =>
      have hone : join [w] = w.print := List.intercalate_singleton
      rw [hone, w.paired_print.splitTopLevel]
      rfl
    | cons v ws =>
      have hmore : join (w :: v :: ws) = w.print ++ ',' :: join (v :: ws) := by
        rw [join, List.map_cons, List.map_cons, List.intercalate_cons_cons, List.append_assoc]
        rfl
      rw [hmore, w.paired_print.splitTopLevel_append, ih (List.cons_ne_nil v ws)]
      rfl

/-- Reading inverts joining, however each argument is written, and none that is read is refused
    for being empty. -/
theorem argumentsOf_join (ws : List Written) (h : ws ≠ []) :
    argumentsOf (join ws) = ws.map (fun w => w.argument.identity) ∧
      "" ∉ argumentsOf (join ws) := by
  have hread : argumentsOf (join ws) = ws.map fun w => w.argument.identity := by
    rw [argumentsOf, splitTopLevel_join h, List.map_map]
    refine List.map_congr_left fun w _ => ?_
    show String.ofList (argumentOf (strip w.print)) = String.ofList w.argument.text
    rw [w.argumentOf_print]
  refine ⟨hread, ?_⟩
  rw [hread]
  intro hempty
  obtain ⟨w, -, hw⟩ := List.mem_map.1 hempty
  exact w.argument.identity_ne hw

/-- Three arguments, each written another way. -/
def mixed : List Written :=
  let name (own : Segment) : Reference := .named (.top [] own)
  let pair : Reference :=
    .instantiation (.top [] ⟨"B\x602".toList, by decide, by decide⟩) (by decide)
      (.next .bracketed (name ⟨['C'], by decide, by decide⟩)
        (.last .plain (name ⟨['D'], by decide, by decide⟩)))
  let table : Reference := .array (name ⟨['E'], by decide, by decide⟩) ⟨[','], rfl⟩
  [{ argument := (name ⟨['A'], by decide, by decide⟩).argument, style := .plain,
     inside := ⟨[], [], by decide, by decide⟩, outside := ⟨['\t'], [' '], by decide, by decide⟩ },
   { argument := pair.argument, style := .bracketed,
     inside := ⟨[' '], [' '], by decide, by decide⟩, outside := ⟨[], [], by decide, by decide⟩ },
   { argument := table.argument,
     style := .qualified " mscorlib, Version=4.0".toList (by decide) (by decide),
     inside := ⟨[], [' '], by decide, by decide⟩, outside := ⟨['\n'], [], by decide, by decide⟩ }]

theorem join_mixed :
    join mixed = "\tA ,[ B\x602[[C],D] ],\n[E[,] , mscorlib, Version=4.0]".toList := by
  decide +kernel

theorem argumentsOf_join_mixed :
    mixed ≠ [] ∧
      argumentsOf "\tA ,[ B\x602[[C],D] ],\n[E[,] , mscorlib, Version=4.0]".toList
        = ["A", "B\x602[[C],D]", "E[,]"] ∧
      "" ∉ argumentsOf "\tA ,[ B\x602[[C],D] ],\n[E[,] , mscorlib, Version=4.0]".toList := by
  have hmixed : mixed ≠ [] := List.cons_ne_nil _ _
  have hread := argumentsOf_join mixed hmixed
  rw [join_mixed] at hread
  exact ⟨hmixed, hread.1, hread.2⟩

end EmmyStubs.Dump
