import EmmyStubs.Json
import EmmyStubs.Yaml.Cursor

/-! # Tokens of a document

    §1 the tokens; §2 scalars in block, quoted and plain style; §3 anchors, tags and
    directives; §4 the structure that indentation gives, and the list of all tokens.

    A key on one line is known only when its colon comes.  So every token that may begin such
    a key is remembered as a candidate of its flow level, and the colon puts the key mark in
    front of it.  `none` stands for a document that breaks the rules.  Where an escape names a
    code point that does not exist, the tokens end with that, in place of all that are not
    told apart from keys by then. -/

namespace EmmyStubs.Yaml

/-! ## §1. Tokens -/

/-- The name of a tag as written: a handle with a suffix, or a full name. -/
inductive TagName where
  | short (handle suffix : String)
  | full (name : String)
  deriving Repr, DecidableEq

inductive Directive where
  | version (major minor : Nat)
  | tagHandle (handle stem : String)
  | other
  deriving Repr, DecidableEq

inductive Token where
  | directive (d : Directive)
  | documentStart
  | documentEnd
  | blockSequenceStart
  | blockMappingStart
  | blockEnd
  | flowSequenceStart
  | flowSequenceEnd
  | flowMappingStart
  | flowMappingEnd
  | blockEntry
  | flowEntry
  | key
  | value
  | alias (name : String)
  | anchor (name : String)
  | tag (name : TagName)
  | scalar (text : String) (plain : Bool)
  | beyond (codePoint : Nat)
  | streamEnd
  deriving Repr, DecidableEq

/-! ## §2. Scalars -/

/-- The line breaks that follow, each with the spaces up to column `indent` behind it. -/
def blockBreaks (indent : Int) : Nat → Cursor → List Char × Cursor
  | 0, c => ([], c)
  | fuel + 1, c =>
    match c.lineBreak? with
    | none => ([], c)
    | some (b, c) =>
      let (bs, c) := blockBreaks indent fuel (c.skipSpacesTo indent)
      (b :: bs, c)

/-- The blank lines in front of a block scalar, and the widest column met in them. -/
def leadingBreaks (widest : Nat) : Nat → Cursor → List Char × Nat × Cursor
  | 0, c => ([], widest, c)
  | fuel + 1, c =>
    if c.isAt ' ' then
      let c := c.advance
      leadingBreaks (max widest c.column) fuel c
    else
      match c.lineBreak? with
      | none => ([], widest, c)
      | some (b, c) =>
        let (bs, widest, c) := leadingBreaks widest fuel c
        (b :: bs, widest, c)

/-- How the line breaks at the end of a block scalar are kept. -/
inductive Chomping where
  | strip
  | clip
  | keep
  deriving DecidableEq

/-- The indicators behind the mark of a block scalar, in either order. -/
def blockIndicators? (c : Cursor) : Option (Chomping × Option Nat × Cursor) := do
  let chomping (c : Cursor) : Chomping × Cursor :=
    if c.isAt '+' then (.keep, c.advance)
    else if c.isAt '-' then (.strip, c.advance)
    else (.clip, c)
  let width (c : Cursor) : Option (Option Nat × Cursor) :=
    match c.ahead 0 with
    | some d =>
      if d == '0' then none
      else if Json.isDigit d then some (some (d.toNat - 48), c.advance)
      else some (none, c)
    | none => some (none, c)
  let (chomp, c₁) := chomping c
  let (w, c₂) ← width c₁
  let (chomp, c₃) := if chomp = .clip then chomping c₂ else (chomp, c₂)
  if c₃.aheadIsOrEnd 0 fun ch => ch == ' ' || isBreak ch then
    return (chomp, w, c₃)
  else none

/-- The lines of a block scalar from a place at column `indent`.  `breaks` are the line breaks
    read before.  Gives the text, the last line break, and the breaks behind it. -/
def blockLines (folded : Bool) (indent : Int) :
    Nat → Cursor → List Char → List Char × List Char × List Char × Cursor
  | 0, c, breaks => ([], [], breaks, c)
  | fuel + 1, c, breaks =>
    let indented (c : Cursor) : Bool := c.column == indent && !c.atEnd
    let spaced (c : Cursor) : Bool := c.aheadIs 0 fun ch => ch == ' ' || ch == '\t'
    let (line, c₁) := c.span fun ch => !isBreak ch
    let (ended, c₂) := match c₁.lineBreak? with
      | some (b, c) => ([b], c)
      | none => ([], c₁)
    let (bs, c₃) := blockBreaks indent c₂.left (c₂.skipSpacesTo indent)
    if indented c₃ then
      let joint :=
        if folded && ended == ['\n'] && !spaced c && !spaced c₃ then
          if bs.isEmpty then [' '] else []
        else ended
      let (text, last, after, c₄) := blockLines folded indent fuel c₃ bs
      (breaks ++ line ++ joint ++ text, last, after, c₄)
    else (breaks ++ line, ended, bs, c₃)

/-- A literal or folded scalar from its mark on; `parent` is the column of the collection that
    holds it. -/
def blockScalar? (folded : Bool) (parent : Int) (c : Cursor) : Option (String × Cursor) := do
  let (chomp, width, c) ← blockIndicators? c.advance
  let c ← c.endOfLine?
  let least : Int := max 1 (parent + 1)
  let (breaks, indent, c) : List Char × Int × Cursor :=
    match width with
    | none =>
      let (bs, widest, c) := leadingBreaks 0 c.left c
      (bs, max least widest, c)
    | some w =>
      let indent := least + w - 1
      let (bs, c) := blockBreaks indent c.left (c.skipSpacesTo indent)
      (bs, indent, c)
  let (text, last, after, c) :=
    if c.column == indent && !c.atEnd then blockLines folded indent c.left c breaks
    else ([], [], breaks, c)
  let tail := match chomp with
    | .strip => []
    | .clip => last
    | .keep => last ++ after
  return (String.ofList (text ++ tail), c)

/-- What an escape letter in double quotes stands for. -/
def escapeLetter? : Char → Option Char
  | '0' => some '\x00'
  | 'a' => some '\x07'
  | 'b' => some '\x08'
  | 't' | '\t' => some '\t'
  | 'n' => some '\n'
  | 'v' => some '\x0b'
  | 'f' => some '\x0c'
  | 'r' => some '\r'
  | 'e' => some '\x1b'
  | ' ' => some ' '
  | '"' => some '"'
  | '\\' => some '\\'
  | '/' => some '/'
  | 'N' => some '\x85'
  | '_' => some '\xa0'
  | 'L' => some '\u2028'
  | 'P' => some '\u2029'
  | _ => none

/-- The number of hexadecimal digits behind an escape letter. -/
def escapeWidth? : Char → Option Nat
  | 'x' => some 2
  | 'u' => some 4
  | 'U' => some 8
  | _ => none

/-- The blank lines inside a quoted scalar; no document mark may stand on them. -/
def quotedBreaks? : Nat → Cursor → Option (List Char × Cursor)
  | 0, c => some ([], c)
  | fuel + 1, c =>
    if c.atDocumentMarker then none
    else
      let c := c.skipWhile fun ch => ch == ' ' || ch == '\t'
      match c.lineBreak? with
      | none => some ([], c)
      | some (b, c) => (quotedBreaks? fuel c).map fun (bs, c) => (b :: bs, c)

/-- The folded text of a line break and the blank lines behind it. -/
def folded (b : Char) (bs : List Char) : List Char :=
  if b != '\n' then b :: bs else if bs.isEmpty then [' '] else bs

/-- How the inside of a quoted scalar ends: with its quote, or at an escape for a code point
    that does not exist or is half of a surrogate pair. -/
inductive QuotedEnd where
  | closed (c : Cursor)
  | beyond (codePoint : Nat)

/-- The inside of a quoted scalar up to its closing quote. -/
def quotedText? (double : Bool) : Nat → Cursor → Option (List Char × QuotedEnd)
  | 0, _ => none
  | fuel + 1, c =>
    let next (cs : List Char) (c : Cursor) : Option (List Char × QuotedEnd) :=
      (quotedText? double fuel c).map fun (t, e) => (cs ++ t, e)
    match c.ahead 0 with
    | none => none
    | some ch =>
      if ch == ' ' || ch == '\t' || isBreak ch then
        let (blanks, c) := c.span fun ch => ch == ' ' || ch == '\t'
        match c.lineBreak? with
        | none => if c.atEnd then none else next blanks c
        | some (b, c) =>
          match quotedBreaks? c.left c with
          | none => none
          | some (bs, c) => next (folded b bs) c
      else if !double && ch == '\x27' then
        if c.ahead 1 == some '\x27' then next ['\x27'] (c.skip 2) else some ([], .closed c.advance)
      else if double && ch == '"' then some ([], .closed c.advance)
      else if double && ch == '\\' then
        let c := c.advance
        match c.ahead 0 with
        | none => none
        | some e =>
          match escapeLetter? e, escapeWidth? e with
          | some r, _ => next [r] c.advance
          | none, some w =>
            let digits := c.advance.rest.take w
            if digits.length < w then none
            else
              match Json.hexNumber? digits with
              | some n =>
                if n.isValidChar then next [Char.ofNat n] (c.advance.skip w)
                else some ([], .beyond n)
              | none => none
          | none, none =>
            match c.lineBreak? with
            | none => none
            | some (_, c) =>
              match quotedBreaks? c.left c with
              | none => none
              | some (bs, c) => next bs c
      else next [ch] c.advance

/-- Whether a plain scalar ends at this character: before a gap, before a colon that a gap
    follows, and in a flow collection before its punctuation. -/
def plainEnds (flow : Bool) (c : List Char) : Bool :=
  match c with
  | [] => true
  | ch :: rest =>
    isGap ch
    || (ch == ':' && match rest with
      | [] => true
      | d :: _ => isGap d || (flow && (d == ',' || d == '[' || d == ']' || d == '{' || d == '}')))
    || (flow && (ch == ',' || ch == '?' || ch == '[' || ch == ']' || ch == '{' || ch == '}'))

/-- The number of characters up to the end of a stretch of a plain scalar. -/
def plainLength (flow : Bool) : List Char → Nat
  | [] => 0
  | ch :: rest => if plainEnds flow (ch :: rest) then 0 else plainLength flow rest + 1

/-- The blank lines inside a plain scalar, spaces passed over; `none` at a document mark,
    together with the place reached. -/
def plainBreaks : Nat → Cursor → Option (List Char) × Cursor
  | 0, c => (some [], c)
  | fuel + 1, c =>
    if c.isAt ' ' then plainBreaks fuel c.advance
    else
      match c.lineBreak? with
      | none => (some [], c)
      | some (b, c) =>
        if c.atDocumentMarker then (none, c)
        else
          let (bs, c) := plainBreaks fuel c
          (bs.map (b :: ·), c)

/-- The gap behind a stretch of a plain scalar: its text, the place behind it, and whether a
    line ended in it.  Without text the scalar is over. -/
def plainGap (c : Cursor) : List Char × Cursor × Bool :=
  let (spaces, c) := c.span (· == ' ')
  match c.lineBreak? with
  | none => (spaces, c, false)
  | some (b, c) =>
    if c.atDocumentMarker then ([], c, true)
    else
      match plainBreaks c.left c with
      | (none, c) => ([], c, true)
      | (some bs, c) => (folded b bs, c, true)

/-- A plain scalar, `gap` being the gap in front of the next stretch.  Its lines stand at or
    behind column `indent` outside flow collections.  The flag tells whether the last thing
    read was a line end, after which a key may begin. -/
def plainText (flow : Bool) (indent : Int) :
    Nat → Cursor → List Char → Bool → List Char × Cursor × Bool
  | 0, c, _, ended => ([], c, ended)
  | fuel + 1, c, gap, ended =>
    let n := if c.isAt '#' then 0 else plainLength flow c.rest
    if n = 0 then ([], c, ended)
    else
      let stretch := c.rest.take n
      let (next, c, ended) := plainGap (c.skip n)
      if next.isEmpty || c.isAt '#' || (!flow && c.column < indent) then (gap ++ stretch, c, ended)
      else
        let (text, c, ended) := plainText flow indent fuel c next ended
        (gap ++ stretch ++ text, c, ended)

/-! ## §3. Anchors, tags and directives -/

/-- A character of a name. -/
def isWord (c : Char) : Bool :=
  Json.isDigit c || ('A' ≤ c && c ≤ 'Z') || ('a' ≤ c && c ≤ 'z') || c == '-' || c == '_'

/-- The name of an anchor or alias from its mark on. -/
def anchorName? (c : Cursor) : Option (String × Cursor) :=
  let (name, c) := c.advance.span isWord
  let closed := c.aheadIsOrEnd 0 fun ch => isGap ch || "?:,]\x7d%@\x60".toList.contains ch
  if name.isEmpty || !closed then none else some (String.ofList name, c)

/-- A character of a tag's name. -/
def isTagChar (c : Char) : Bool :=
  isWord c || ";/?:@&=+$,.!~*\x27()[]%".toList.contains c

/-- The text of some octets. -/
def ofOctets? (bytes : List Nat) : Option (List Char) :=
  (String.fromUTF8? ⟨(bytes.map UInt8.ofNat).toArray⟩).map String.toList

/-- A tag's name with its escaped octets read, `held` being those right in front, most recent
    first; a run of them has to form a text. -/
def tagText? (held : List Nat) : List Char → Option (List Char)
  | [] => ofOctets? held.reverse
  | '%' :: a :: b :: rest => do
    let n ← Json.hexNumber? [a, b]
    tagText? (n :: held) rest
  | c :: rest => do
    if c == '%' then none
    else
      let text ← ofOctets? held.reverse
      let rest ← tagText? [] rest
      return text ++ c :: rest

def tagUri? (c : Cursor) : Option (String × Cursor) :=
  let (name, c) := c.span isTagChar
  if name.isEmpty then none else (tagText? [] name).map fun t => (String.ofList t, c)

/-- A tag handle: one exclamation mark, or a word between two. -/
def tagHandle? (c : Cursor) : Option (String × Cursor) :=
  if !c.isAt '!' then none
  else if c.ahead 1 == some ' ' then some ("!", c.advance)
  else
    let (name, c) := c.advance.span isWord
    if c.isAt '!' then some ("!" ++ String.ofList name ++ "!", c.advance) else none

/-- A tag from its mark on. -/
def tagName? (c : Cursor) : Option (TagName × Cursor) := do
  let closed (c : Cursor) : Bool := c.aheadIsOrEnd 0 fun ch => ch == ' ' || isBreak ch
  let (name, c) ←
    if c.ahead 1 == some '<' then do
      let (uri, c) ← tagUri? (c.skip 2)
      if c.isAt '>' then some (TagName.full uri, c.advance) else none
    else if c.aheadIsOrEnd 1 isGap then some (TagName.full "!", c.advance)
    else
      let run := c.advance.rest.takeWhile fun ch => !(ch == ' ' || isBreak ch)
      if run.contains '!' then do
        let (handle, c) ← tagHandle? c
        let (uri, c) ← tagUri? c
        some (TagName.short handle uri, c)
      else do
        let (uri, c) ← tagUri? c.advance
        some (TagName.short "!" uri, c)
  if closed c then some (name, c) else none

/-- A directive from its mark to the end of its line. -/
def directive? (c : Cursor) : Option (Directive × Cursor) := do
  let closed (c : Cursor) : Bool := c.aheadIsOrEnd 0 fun ch => ch == ' ' || isBreak ch
  let number? (c : Cursor) : Option (Nat × Cursor) :=
    let (ds, c) := c.span Json.isDigit
    if ds.isEmpty then none else some (Json.decimal ds, c)
  let (name, c) := c.advance.span isWord
  if name.isEmpty || !closed c then none
  else
    let (d, c) ←
      if name == "YAML".toList then do
        let (major, c) ← number? (c.skipWhile (· == ' '))
        if !c.isAt '.' then none
        else
          let (minor, c) ← number? c.advance
          if closed c then some (Directive.version major minor, c) else none
      else if name == "TAG".toList then do
        let (handle, c) ← tagHandle? (c.skipWhile (· == ' '))
        if !c.isAt ' ' then none
        else
          let (stem, c) ← tagUri? (c.skipWhile (· == ' '))
          if closed c then some (Directive.tagHandle handle stem, c) else none
      else some (Directive.other, c.skipWhile fun ch => !isBreak ch)
    let c ← c.endOfLine?
    return (d, c)

/-! ## §4. All tokens -/

/-- A token that may turn out to begin a key: its place among the tokens and in the text.  A
    required one stands where only a key can stand. -/
structure Candidate where
  position : Nat
  required : Bool
  index : Nat
  line : Nat
  column : Nat

/-- What is known between two tokens: the tokens so far, the depth of flow collections, the
    columns of the open block collections, and where keys may begin. -/
structure Scan where
  cursor : Cursor
  tokens : Array Token
  flow : Nat
  indent : Int
  indents : List Int
  keyAllowed : Bool
  candidates : List (Nat × Candidate)

namespace Scan

def start (s : String) : Scan where
  cursor := Cursor.start s
  tokens := #[]
  flow := 0
  indent := -1
  indents := []
  keyAllowed := true
  candidates := []

def inFlow (s : Scan) : Bool :=
  s.flow != 0

def push (s : Scan) (t : Token) : Scan :=
  { s with tokens := s.tokens.push t }

def moveTo (s : Scan) (c : Cursor) : Scan :=
  { s with cursor := c }

def candidate? (s : Scan) : Option Candidate :=
  (s.candidates.find? (·.1 == s.flow)).map (·.2)

def dropCandidate (s : Scan) : Scan :=
  { s with candidates := s.candidates.filter (·.1 != s.flow) }

/-- Gives up the candidate of this flow level; a required one may not be given up. -/
def forgetCandidate? (s : Scan) : Option Scan :=
  match s.candidate? with
  | some k => if k.required then none else some s.dropCandidate
  | none => some s

/-- Whether a candidate began on an earlier line or too far back. -/
def expired (s : Scan) (k : Candidate) : Bool :=
  k.line != s.cursor.line || s.cursor.index > k.index + 1024

/-- Gives up the expired candidates. -/
def expireCandidates? (s : Scan) : Option Scan :=
  if s.candidates.any fun k => s.expired k.2 && k.2.required then none
  else some { s with candidates := s.candidates.filter fun k => !s.expired k.2 }

/-- How many tokens are settled: those in front of the first that may still begin a key. -/
def settled (s : Scan) : Nat :=
  s.candidates.foldl (fun n k => if s.expired k.2 then n else min n k.2.position) s.tokens.size

/-- Remembers the next token as a candidate, where a key may begin. -/
def markCandidate? (s : Scan) : Option Scan :=
  if s.keyAllowed then
    s.forgetCandidate?.map fun s =>
      let c := s.cursor
      let k : Candidate :=
        ⟨s.tokens.size, !s.inFlow && s.indent == c.column, c.index, c.line, c.column⟩
      { s with candidates := (s.flow, k) :: s.candidates }
  else some s

/-- Closes the block collections that stand right of `column`, at most `fuel` of them. -/
def closeBlocks (column : Int) : Nat → Scan → Scan
  | 0, s => s
  | fuel + 1, s =>
    if s.indent > column then
      match s.indents with
      | i :: is =>
        closeBlocks column fuel { s.push .blockEnd with indent := i, indents := is }
      | [] => s
    else s

/-- Closes the block collections right of `column`; inside flow collections none ends. -/
def unwind (column : Int) (s : Scan) : Scan :=
  if s.inFlow then s else closeBlocks column s.indents.length s

/-- Opens a block collection at `column` unless one is open there. -/
def openBlock? (column : Int) (s : Scan) : Option Scan :=
  if s.indent < column then
    some { s with indents := s.indent :: s.indents, indent := column }
  else none

/-- Passes spaces, comments and line ends up to the next token. -/
def skipToToken : Nat → Scan → Scan
  | 0, s => s
  | fuel + 1, s =>
    let c := s.cursor.skipWhile (· == ' ')
    let c := if c.isAt '#' then c.skipWhile fun ch => !isBreak ch else c
    match c.lineBreak? with
    | some (_, c) =>
      skipToToken fuel { s with cursor := c, keyAllowed := s.keyAllowed || !s.inFlow }
    | none => s.moveTo c

/-- Ends all blocks in front of a directive, a document mark or the end. -/
def endBlocks? (s : Scan) : Option Scan :=
  (s.unwind (-1)).forgetCandidate?.map fun s => { s with keyAllowed := false }

/-- A token of one character that ends nothing. -/
def flowOpen? (t : Token) (s : Scan) : Option Scan :=
  s.markCandidate?.map fun s =>
    { (s.push t).moveTo s.cursor.advance with flow := s.flow + 1, keyAllowed := true }

def flowClose? (t : Token) (s : Scan) : Option Scan :=
  if s.inFlow then
    s.forgetCandidate?.map fun s =>
      { (s.push t).moveTo s.cursor.advance with flow := s.flow - 1, keyAllowed := false }
  else none

def flowEntry? (s : Scan) : Option Scan :=
  ({ s with keyAllowed := true } : Scan).forgetCandidate?.map fun s =>
    (s.push .flowEntry).moveTo s.cursor.advance

/-- An entry mark or an explicit key mark, which opens a block collection where none is open;
    `keyAfter` tells whether a key may begin right behind it. -/
def blockMark? (opening mark : Token) (keyAfter : Bool) (s : Scan) : Option Scan := do
  let s ←
    if s.inFlow then some s
    else if !s.keyAllowed then none
    else
      match s.openBlock? s.cursor.column with
      | some s => some (s.push opening)
      | none => some s
  let s ← ({ s with keyAllowed := keyAfter } : Scan).forgetCandidate?
  return (s.push mark).moveTo s.cursor.advance

/-- The colon behind a key.  Behind a candidate the key mark is put in front of it, and the
    start of a mapping before that where none is open at its column. -/
def keyEnd? (s : Scan) : Option Scan :=
  match s.candidate? with
  | some k =>
    let s := s.dropCandidate
    let s := { s with tokens := s.tokens.insertIdxIfInBounds k.position .key }
    let s :=
      if s.inFlow then s
      else
        match s.openBlock? k.column with
        | some s => { s with tokens := s.tokens.insertIdxIfInBounds k.position .blockMappingStart }
        | none => s
    some { (s.push .value).moveTo s.cursor.advance with keyAllowed := false }
  | none => do
    let s ←
      if s.inFlow then some s
      else if !s.keyAllowed then none
      else
        match s.openBlock? s.cursor.column with
        | some s => some (s.push .blockMappingStart)
        | none => some s
    let s ← ({ s with keyAllowed := !s.inFlow } : Scan).forgetCandidate?
    return (s.push .value).moveTo s.cursor.advance

/-- A token that may begin a key and behind which none may begin. -/
def keyed? (read : Cursor → Option (Token × Cursor)) (s : Scan) : Option Scan := do
  let s ← s.markCandidate?
  let (t, c) ← read s.cursor
  return { (s.push t).moveTo c with keyAllowed := false }

/-- Whether a plain scalar may begin here. -/
def plainStarts (s : Scan) : Bool :=
  match s.cursor.ahead 0 with
  | none => false
  | some ch =>
    let indicator := "-?:,[]\x7b\x7d#&*!|>\x27\"%@\x60".toList.contains ch
    let solid := !s.cursor.aheadIsOrEnd 1 isGap
    (!isGap ch && !indicator) || (solid && (ch == '-' || (!s.inFlow && (ch == '?' || ch == ':'))))

def plain? (s : Scan) : Option Scan :=
  s.markCandidate?.map fun s =>
    let (text, c, ended) :=
      plainText s.inFlow (s.indent + 1) (s.cursor.left + 1) s.cursor [] false
    { (s.push (.scalar (String.ofList text) true)).moveTo c with keyAllowed := ended }

def blockScalar? (isFolded : Bool) (s : Scan) : Option Scan := do
  let s ← ({ s with keyAllowed := true } : Scan).forgetCandidate?
  let (text, c) ← Yaml.blockScalar? isFolded s.indent s.cursor
  return (s.push (.scalar text false)).moveTo c

def quoted? (double : Bool) (s : Scan) : Option Scan :=
  s.keyed? fun c =>
    (quotedText? double (c.left + 1) c.advance).map fun (t, e) =>
      match e with
      | .closed c => (.scalar (String.ofList t) false, c)
      | .beyond n => (.beyond n, ⟨[], 0, c.index, c.line, c.column⟩)

def documentMark? (t : Token) (s : Scan) : Option Scan :=
  s.endBlocks?.map fun s => (s.push t).moveTo (s.cursor.skip 3)

/-- The token that begins with `ch` here. -/
def dispatch? (ch : Char) (s : Scan) : Option Scan :=
  let c := s.cursor
  let gapBehind := c.aheadIsOrEnd 1 isGap
  if ch == '%' && c.column == 0 then
    s.endBlocks?.bind fun s =>
      (directive? s.cursor).map fun (d, c) => (s.push (.directive d)).moveTo c
  else if c.column == 0 && c.atMarker '-' then s.documentMark? .documentStart
  else if c.column == 0 && c.atMarker '.' then s.documentMark? .documentEnd
  else if ch == '[' then s.flowOpen? .flowSequenceStart
  else if ch == '{' then s.flowOpen? .flowMappingStart
  else if ch == ']' then s.flowClose? .flowSequenceEnd
  else if ch == '}' then s.flowClose? .flowMappingEnd
  else if ch == ',' then s.flowEntry?
  else if ch == '-' && gapBehind then s.blockMark? .blockSequenceStart .blockEntry true
  else if ch == '?' && (s.inFlow || gapBehind) then
    s.blockMark? .blockMappingStart .key (!s.inFlow)
  else if ch == ':' && (s.inFlow || gapBehind) then s.keyEnd?
  else if ch == '*' then s.keyed? fun c => (anchorName? c).map fun (n, c) => (.alias n, c)
  else if ch == '&' then s.keyed? fun c => (anchorName? c).map fun (n, c) => (.anchor n, c)
  else if ch == '!' then s.keyed? fun c => (tagName? c).map fun (t, c) => (.tag t, c)
  else if ch == '|' && !s.inFlow then s.blockScalar? false
  else if ch == '>' && !s.inFlow then s.blockScalar? true
  else if ch == '\x27' then s.quoted? false
  else if ch == '"' then s.quoted? true
  else if s.plainStarts then s.plain?
  else none

/-- All tokens up to the end of the text.  Every token takes at least one character, so the
    length of the text bounds their number. -/
def run : Nat → Scan → Option (Array Token)
  | 0, _ => none
  | fuel + 1, s => do
    let settled := s.settled
    let s ← (s.skipToToken (s.cursor.left + 1)).expireCandidates?
    let s := s.unwind s.cursor.column
    match s.cursor.ahead 0 with
    | none => s.endBlocks?.map fun s => s.tokens.push .streamEnd
    | some ch =>
      let s ← s.dispatch? ch
      match s.tokens.back? with
      | some (.beyond n) => some ((s.tokens.extract 0 settled).push (.beyond n))
      | _ => run fuel s

end Scan

/-- The tokens of a document, if it can be cut into tokens. -/
def tokens? (text : String) : Option (List Token) :=
  if text.toList.all isAllowed then
    let s := Scan.start text
    let s := if s.cursor.isAt '\uFEFF' then s.moveTo s.cursor.advance else s
    (s.run (text.length + 2)).map Array.toList
  else none

end EmmyStubs.Yaml
