/-! # A place in a document

    Block structure depends on columns, and a key must end on the line it began, so a place
    in the text knows its index, line and column besides the characters that are left.  Their
    number is kept too: it bounds whatever is read from here on. -/

namespace EmmyStubs.Yaml

/-- A character that ends a line. -/
def isBreak (c : Char) : Bool :=
  c == '\n' || c == '\r' || c == '\x85' || c == '\u2028' || c == '\u2029'

/-- A character that ends a line, a space or a tab. -/
def isGap (c : Char) : Bool :=
  c == ' ' || c == '\t' || isBreak c

/-- A character that may occur in a document at all. -/
def isAllowed (c : Char) : Bool :=
  let n := c.toNat
  n == 0x09 || n == 0x0A || n == 0x0D || n == 0x85 || (0x20 ≤ n && n ≤ 0x7E)
    || (0xA0 ≤ n && n ≤ 0xD7FF) || (0xE000 ≤ n && n ≤ 0xFFFD) || 0x10000 ≤ n

structure Cursor where
  rest : List Char
  left : Nat
  index : Nat
  line : Nat
  column : Nat

namespace Cursor

def start (s : String) : Cursor :=
  ⟨s.toList, s.length, 0, 0, 0⟩

/-- The character `n` places ahead. -/
def ahead (c : Cursor) (n : Nat) : Option Char :=
  c.rest[n]?

def atEnd (c : Cursor) : Bool :=
  c.rest.isEmpty

/-- Whether the character `n` places ahead satisfies `p`. -/
def aheadIs (c : Cursor) (n : Nat) (p : Char → Bool) : Bool :=
  match c.ahead n with
  | some ch => p ch
  | none => false

/-- Whether the character `n` places ahead satisfies `p`, the end of the text included. -/
def aheadIsOrEnd (c : Cursor) (n : Nat) (p : Char → Bool) : Bool :=
  match c.ahead n with
  | some ch => p ch
  | none => true

def isAt (c : Cursor) (ch : Char) : Bool :=
  c.ahead 0 == some ch

/-- The place one character on.  A carriage return that a line feed follows ends no line of
    its own, and a byte order mark takes no column. -/
def advance (c : Cursor) : Cursor :=
  match c.rest with
  | [] => c
  | ch :: rest =>
    if ch == '\n' || ch == '\x85' || ch == '\u2028' || ch == '\u2029'
        || (ch == '\r' && rest.head? != some '\n') then
      ⟨rest, c.left - 1, c.index + 1, c.line + 1, 0⟩
    else if ch == '\uFEFF' then ⟨rest, c.left - 1, c.index + 1, c.line, c.column⟩
    else ⟨rest, c.left - 1, c.index + 1, c.line, c.column + 1⟩

/-- The place `n` characters on. -/
def skip : Nat → Cursor → Cursor
  | 0, c => c
  | n + 1, c => skip n c.advance

/-- The longest run of characters with `p`, and the place behind it. -/
def span (p : Char → Bool) (c : Cursor) : List Char × Cursor :=
  let run := c.rest.takeWhile p
  (run, skip run.length c)

/-- The place behind the longest run of characters with `p`. -/
def skipWhile (p : Char → Bool) (c : Cursor) : Cursor :=
  (c.span p).2

/-- The place behind the spaces that stand here, but not beyond column `limit`. -/
def skipSpacesTo (limit : Int) (c : Cursor) : Cursor :=
  skip (min (c.rest.takeWhile (· == ' ')).length (limit - c.column).toNat) c

/-- A line break that stands here, and the place behind it.  Both forms with a carriage
    return and the next-line character read as a line feed. -/
def lineBreak? (c : Cursor) : Option (Char × Cursor) :=
  match c.rest with
  | '\r' :: '\n' :: _ => some ('\n', skip 2 c)
  | ch :: _ =>
    if ch == '\r' || ch == '\n' || ch == '\x85' then some ('\n', c.advance)
    else if ch == '\u2028' || ch == '\u2029' then some (ch, c.advance)
    else none
  | [] => none

/-- Whether the mark of three equal characters stands here as a word. -/
def atMarker (ch : Char) (c : Cursor) : Bool :=
  c.ahead 0 == some ch && c.ahead 1 == some ch && c.ahead 2 == some ch && c.aheadIsOrEnd 3 isGap

/-- Whether a document start or end mark stands here. -/
def atDocumentMarker (c : Cursor) : Bool :=
  c.atMarker '-' || c.atMarker '.'

/-- Passes the rest of a line on which only a comment may stand. -/
def endOfLine? (c : Cursor) : Option Cursor :=
  let c := c.skipWhile (· == ' ')
  let c := if c.isAt '#' then c.skipWhile fun ch => !isBreak ch else c
  if c.atEnd then some c
  else c.lineBreak?.map (·.2)

end Cursor

end EmmyStubs.Yaml
