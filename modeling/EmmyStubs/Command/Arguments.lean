import EmmyStubs.Number.Numeral
import EmmyStubs.Text.Cut
import EmmyStubs.Text.DecimalDigit

/-! # Command line arguments

    The first plain word names the command; options may stand before it and behind it, each
    level with its own.  A long option may be cut short as long as only one begins that way and
    takes its value behind an equals sign or as the next word, short flags may be joined, and
    two dashes end the options. -/

namespace EmmyStubs.Command

open EmmyStubs.Text

/-! ## §1. Options -/

inductive Key where
  | help
  | verbose
  | quiet
  | logFile
  | output
  | workers
  | strict
  deriving DecidableEq, Repr

def Key.takesValue : Key → Bool
  | .logFile | .output | .workers => true
  | _ => false

/-- The options of a level, as they are written. -/
abbrev Spellings := List (String × Key)

def commonOptions : Spellings :=
  [("-h", .help), ("--help", .help), ("-v", .verbose), ("--verbose", .verbose), ("-q", .quiet),
   ("--quiet", .quiet)]

/-- The options in front of the command. -/
def topOptions : Spellings :=
  commonOptions ++ [("--log-file", .logFile)]

inductive Name where
  | generate
  | list
  deriving DecidableEq, Repr

/-- The options behind a command. -/
def Name.options : Name → Spellings
  | .generate =>
    commonOptions ++ [("--output", .output), ("--workers", .workers), ("--strict", .strict)]
  | .list => commonOptions

def Name.ofWord? (word : String) : Option Name :=
  if word = "generate" then some .generate else if word = "list" then some .list else none

/-- Why arguments are not carried out: they are wrong, or ask for help. -/
inductive Rejection where
  | usage
  | help
  deriving DecidableEq, Repr

/-! ## §2. Words -/

/-- What is attached to an option in its word: a value behind an equals sign, or characters
    right behind a short flag, which an equals sign may part from it. -/
inductive Attached where
  | nothing
  | behindLong (text : List Char)
  | behindShort (text : List Char)
  deriving DecidableEq, Repr

/-- What a word of the command line is. -/
inductive Word where
  | plain (text : String)
  | separator
  | option (key : Key) (attached : Attached)
  | unknown
  deriving DecidableEq, Repr

/-- The option that is written in this way. -/
def spelled? (options : Spellings) (word : List Char) : Option Key :=
  (options.find? fun o => o.1.toList == word).map (·.2)

/-- Whether a word starts with two dashes. -/
def isLong (word : List Char) : Bool :=
  ['-', '-'].isPrefixOf word

/-- A word cut at its first equals sign, if it has one. -/
def cutValue (word : List Char) : List Char × Attached :=
  match word.dropWhile (· ≠ '=') with
  | [] => (word, .nothing)
  | _ :: value =>
    (word.takeWhile (· ≠ '='), if isLong word then .behindLong value else .behindShort value)

/-- The options that a word may stand for without being written out. -/
def abbreviated (options : Spellings) (word : List Char) : List Word :=
  if isLong word then
    let (name, attached) := cutValue word
    (options.filter fun o => name.isPrefixOf o.1.toList).map fun o => .option o.2 attached
  else
    options.filterMap fun o =>
      if o.1.toList = word.take 2 then some (.option o.2 (.behindShort (word.drop 2)))
      else if word.isPrefixOf o.1.toList then some (.option o.2 .nothing)
      else none

/-- Whether digits, perhaps with a point among or in front of them, make up a text. -/
def isUnsigned (s : List Char) : Bool :=
  let isDigit (c : Char) : Bool := (digitValue? c).isSome
  match s.dropWhile isDigit with
  | [] => !s.isEmpty
  | '.' :: fs => !fs.isEmpty && fs.all isDigit
  | _ => false

/-- Whether a word is a number below zero, which is never an option.  A line feed may end it. -/
def isNegativeNumber : List Char → Bool
  | '-' :: s => isUnsigned s || (s.getLast? == some '\n' && isUnsigned s.dropLast)
  | _ => false

/-- What a word in front of the separator is. -/
def classify (options : Spellings) (text : String) : Except Rejection Word :=
  let word := text.toList
  match word with
  | '-' :: _ :: _ =>
    match spelled? options word with
    | some key => return .option key .nothing
    | none =>
      let (name, attached) := cutValue word
      match attached, spelled? options name with
      | .nothing, _ | _, none =>
        match abbreviated options word with
        | [w] => return w
        | _ :: _ :: _ => throw .usage
        | [] =>
          return if isNegativeNumber word || word.contains ' ' then .plain text else .unknown
      | attached, some key => return .option key attached
  | _ => return .plain text

/-- All words with what they are; behind two dashes every word is plain. -/
def classifyAll (options : Spellings) : List String → Except Rejection (List (String × Word))
  | [] => return []
  | text :: rest =>
    if text = "--" then return (text, .separator) :: rest.map fun t => (t, .plain t)
    else do
      let w ← classify options text
      let ws ← classifyAll options rest
      return (text, w) :: ws

/-! ## §3. Flags -/

/-- What the options ask for. -/
structure Flags where
  verbose : Bool := false
  quiet : Bool := false
  logFile : Option String := none
  output : Option String := none
  workers : Option Int := none
  strict : Bool := false
  deriving Repr

def Flags.set (f : Flags) (key : Key) (value : String) : Except Rejection Flags :=
  match key with
  | .help => throw .help
  | .verbose => return { f with verbose := true }
  | .quiet => return { f with quiet := true }
  | .logFile => return { f with logFile := some value }
  | .output => return { f with output := some value }
  | .strict => return { f with strict := true }
  | .workers =>
    match Number.integer? value with
    | some n => return { f with workers := some n }
    | none => throw .usage

/-- Options to carry out, the last perhaps with its value. -/
abbrev Bundle := List (Key × Option String)

/-- Flags joined behind one dash, from the first one and what is behind it. -/
def unbundle (options : Spellings) (key : Key) : List Char → Except Rejection Bundle
  | [] => return [(key, none)]
  | c :: cs =>
    if key.takesValue then return [(key, some (String.ofList (c :: cs)))]
    else
      match spelled? options ['-', c] with
      | none => throw .usage
      | some next => do
        let rest ← unbundle options next cs
        return (key, none) :: rest

/-- The options that one word stands for.  A flag takes no value, not even an empty one. -/
def bundle (options : Spellings) (key : Key) (attached : Attached) : Except Rejection Bundle :=
  match attached with
  | .nothing => return [(key, none)]
  | .behindLong text =>
    if key.takesValue then return [(key, some (String.ofList text))] else throw .usage
  | .behindShort text =>
    if key.takesValue then return [(key, some (String.ofList text))]
    else if text.isEmpty then throw .usage
    else unbundle options key text

/-- Carries out some options; one that lacks its value takes the next word, which has to be
    plain.  The flag tells whether that word was taken. -/
def Flags.setAll (f : Flags) (next : Option Word) :
    Bundle → Except Rejection (Flags × Bool)
  | [] => return (f, false)
  | (key, some value) :: rest => do
    let f ← f.set key value
    f.setAll next rest
  | (key, none) :: rest =>
    if key.takesValue then
      match next with
      | some (.plain value) => return (← f.set key value, true)
      | _ => throw .usage
    else do
      let f ← f.set key ""
      f.setAll next rest

/-- The flags behind an option, and whether it took the next word. -/
def Flags.take (f : Flags) (options : Spellings) (key : Key) (attached : Attached)
    (next : Option Word) : Except Rejection (Flags × Bool) := do
  f.setAll next (← bundle options key attached)

/-! ## §4. Commands -/

/-- What is read behind a command: its one plain word, whether an option stood behind that, and
    whether something was there that has no meaning. -/
structure Progress where
  flags : Flags
  config : Option String := none
  closed : Bool := false
  stray : Bool := false

/-- Reads the words behind a command. -/
def Progress.read (options : Spellings) (p : Progress) :
    List (String × Word) → Except Rejection Progress
  | [] => return p
  | (_, .plain text) :: rest =>
    if p.config.isNone then ({ p with config := some text } : Progress).read options rest
    else ({ p with stray := true } : Progress).read options rest
  | (_, .separator) :: rest =>
    ({ p with stray := p.stray || p.closed } : Progress).read options rest
  | (_, .unknown) :: rest => ({ p with stray := true } : Progress).read options rest
  | (_, .option key attached) :: [] => do
    let (flags, _) ← p.flags.take options key attached none
    return { p with flags, closed := p.config.isSome }
  | (_, .option key attached) :: next :: rest => do
    let (flags, taken) ← p.flags.take options key attached (some next.2)
    let p : Progress := { p with flags, closed := p.config.isSome }
    if taken then p.read options rest else p.read options (next :: rest)

/-- A command with all that it was given. -/
structure Invocation where
  name : Name
  flags : Flags
  config : String
  deriving Repr

/-- Reads a command from its name on. -/
def readCommand (flags : Flags) (stray : Bool) (word : String) (rest : List String) :
    Except Rejection Invocation :=
  match Name.ofWord? word with
  | none => throw .usage
  | some name => do
    let words ← classifyAll name.options rest
    let p ← ({ flags } : Progress).read name.options words
    if stray || p.stray then throw .usage
    return ⟨name, p.flags, p.config.getD "."⟩

/-- Reads the options in front of the command, then the command. -/
def readTop (flags : Flags) (stray : Bool) : List (String × Word) → Except Rejection Invocation
  | [] => throw .usage
  | (_, .plain text) :: rest => readCommand flags stray text (rest.map (·.1))
  | (_, .separator) :: _ => throw .usage
  | (_, .unknown) :: rest => readTop flags true rest
  | (_, .option key attached) :: [] => do
    let _ ← flags.take topOptions key attached none
    throw .usage
  | (_, .option key attached) :: next :: rest => do
    let (flags, taken) ← flags.take topOptions key attached (some next.2)
    if taken then readTop flags stray rest else readTop flags stray (next :: rest)

/-- Reads the arguments of the program. -/
def Invocation.ofArguments (arguments : List String) : Except Rejection Invocation := do
  let words ← classifyAll topOptions arguments
  readTop {} false words

end EmmyStubs.Command
