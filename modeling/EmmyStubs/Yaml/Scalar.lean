import EmmyStubs.Number.Numeral
import EmmyStubs.Text.Base64
import EmmyStubs.Text.Cut
import EmmyStubs.Text.Fold
import EmmyStubs.Yaml.Timestamp

/-! # Scalars

    A scalar without a tag is null, a truth value, a number, a timestamp, a merge mark, a
    default mark or a text by its spelling alone (§2).  A tag asks for one of these kinds
    whatever the spelling is, and reads it more liberally (§3); what cannot be read so is a
    `Misspelling`. -/

namespace EmmyStubs.Yaml

open EmmyStubs.Text EmmyStubs.Number

/-! ## §1. Kinds, tags and faults -/

/-- The kinds of node that have a meaning. -/
inductive Kind where
  | null
  | bool
  | int
  | float
  | binary
  | timestamp
  | str
  | merge
  | default
  | seq
  | omap
  | pairs
  | set
  | map
  deriving DecidableEq, Repr

/-- The names of the kinds inside tags. -/
def Kind.names : List (String × Kind) :=
  [("null", .null), ("bool", .bool), ("int", .int), ("float", .float), ("binary", .binary),
   ("timestamp", .timestamp), ("str", .str), ("merge", .merge), ("value", .default),
   ("seq", .seq), ("omap", .omap), ("pairs", .pairs), ("set", .set), ("map", .map)]

/-- What all tags of known kinds begin with. -/
def coreStem : String := "tag:yaml.org,2002:"

/-- The kind that the full name of a tag asks for; `none` for a name that is not known. -/
def Kind.ofTag? (name : String) : Option Kind :=
  (Kind.names.find? fun k => coreStem ++ k.1 == name).map (·.2)

/-- Why the text of a scalar does not spell what is asked for. -/
inductive Misspelling where
  | empty
  | integer (base : Nat) (text : String)
  | excess (digits : Nat)
  | float (text : String)
  | truth (text : String)
  | timestamp
  | timestampOfMapping
  | outOfRange (part : Calendar.Fault)
  | codePoint (n : Nat)
  deriving DecidableEq, Repr

def Misspelling.message : Misspelling → String
  | .empty => "string index out of range"
  | .integer base text =>
    "invalid literal for int() with base " ++ Nat.repr base ++ ": "
      ++ String.ofList ((Quoted.encode text).toList.take 200)
  | .excess digits => (Excess.reading digits).message
  | .float text => "could not convert string to float: " ++ Quoted.encode text
  | .truth text => Quoted.encode text
  | .timestamp => "'NoneType' object has no attribute 'groupdict'"
  | .timestampOfMapping => "expected string or bytes-like object, got 'list'"
  | .outOfRange part => part.message
  | .codePoint n =>
    if n < 0x110000 then "surrogates not allowed" else "chr() arg not in range(0x110000)"

/-- Why a document has no value. -/
inductive Fault where
  | malformed
  | misspelled (m : Misspelling)
  deriving DecidableEq, Repr

namespace Scalar

/-! ## §2. Kinds by spelling -/

def isNull (s : String) : Bool :=
  ["", "~", "null", "Null", "NULL"].contains s

def isTruth (s : String) : Bool :=
  ["yes", "Yes", "YES", "true", "True", "TRUE", "on", "On", "ON", "no", "No", "NO", "false",
   "False", "FALSE", "off", "Off", "OFF"].contains s

/-- Whether a text is a digit group behind a colon: one digit, or two below sixty. -/
def isSixtieth : List Char → Bool
  | [a] => Json.isDigit a
  | [a, b] => '0' ≤ a && a ≤ '5' && Json.isDigit b
  | _ => false

/-- A decimal digit or an underscore. -/
def isGrouping (c : Char) : Bool :=
  Json.isDigit c || c == '_'

/-- Digits and underscores from a digit on. -/
def isGrouped (s : List Char) : Bool :=
  match s with
  | d :: ds => Json.isDigit d && ds.all isGrouping
  | [] => false

/-- Whether a text is a digit group with at least one more behind a colon. -/
def isSexagesimal (s : List Char) : Bool :=
  match segments ':' s with
  | ds :: g :: groups => isGrouped ds && (g :: groups).all isSixtieth
  | _ => false

/-- Whether a text without a sign spells an integer.  It may be decimal, octal behind a leading
    zero, hexadecimal, binary, or written in base sixty. -/
def isNatural (s : List Char) : Bool :=
  match s with
  | ['0'] => true
  | '0' :: 'b' :: ds => !ds.isEmpty && ds.all fun c => c == '0' || c == '1' || c == '_'
  | '0' :: 'x' :: ds => !ds.isEmpty && ds.all fun c => (Json.hexValue? c).isSome || c == '_'
  | '0' :: ds => ds.all fun c => ('0' ≤ c && c ≤ '7') || c == '_'
  | _ => isGrouped s || isSexagesimal s

def isInteger (s : List Char) : Bool :=
  isNatural (splitSign s).2

/-- Whether nothing follows, or a whole exponent with a sign. -/
def isExponent : List Char → Bool
  | [] => true
  | e :: sign :: ds =>
    (e == 'e' || e == 'E') && (sign == '-' || sign == '+') && !ds.isEmpty && ds.all Json.isDigit
  | _ => false

/-- Whether a text with a point spells a float.  Its exponent needs a sign; without a digit in
    front of the point it has no sign itself. -/
def isPointed (s : List Char) : Bool :=
  let ds := (splitSign s).2
  let whole := ds.takeWhile (· != '.')
  match ds.dropWhile (· != '.') with
  | _ :: rest =>
    let (fraction, tail) := rest.span isGrouping
    if whole.isEmpty then
      ds.length == s.length && ((fraction.head?.map Json.isDigit).getD false) && isExponent tail
    else (isGrouped whole && isExponent tail) || (isSexagesimal whole && tail.isEmpty)
  | [] => false

def isFloat (s : List Char) : Bool :=
  [".nan", ".NaN", ".NAN"].contains (String.ofList s)
    || [".inf", ".Inf", ".INF"].contains (String.ofList (splitSign s).2)
    || isPointed s

/-- The timestamp that a text spells; a line feed may end it. -/
def timestamp? (s : List Char) : Option Timestamp :=
  Timestamp.ofChars? (if s.getLast? = some '\n' then s.dropLast else s)

/-- The kind of a scalar by its spelling; a line feed behind it does not count. -/
def kindOf (text : String) : Kind :=
  let s := text.toList
  let body := if s.getLast? = some '\n' then s.dropLast else s
  let word := String.ofList body
  if text == "\n" then .str
  else if isNull word then .null
  else if word == "<<" then .merge
  else if word == "=" then .default
  else if isTruth word then .bool
  else if isFloat body then .float
  else if isInteger body then .int
  else if ((timestamp? s).map Timestamp.isPlain).getD false then .timestamp
  else .str

/-! ## §3. Values by kind -/

def fail {α : Type} (m : Misspelling) : Except Fault α :=
  throw (.misspelled m)

def dropUnderscores (s : List Char) : List Char :=
  s.filter (· != '_')

/-- The truth value that a word names in any case. -/
def truth (text : String) : Except Fault Bool :=
  let word := lower text
  if word ∈ ["yes", "true", "on"] then return true
  else if word ∈ ["no", "false", "off"] then return false
  else fail (.truth word)

/-- The integer that digits spell in a base. -/
def digits (base : Nat) (ds : List Char) : Except Fault Int :=
  match integerIn base ds with
  | .ok n => return n
  | .error .malformed => fail (.integer base (String.ofList ds))
  | .error (.excess count) => fail (.excess count)

/-- The integer that a text without underscores and sign spells. -/
def unsigned (s : List Char) : Except Fault Int :=
  match s with
  | [] => fail .empty
  | ['0'] => return 0
  | '0' :: 'b' :: ds => digits 2 ds
  | '0' :: 'x' :: ds => digits 16 ds
  | '0' :: _ => digits 8 s
  | _ =>
    if s.contains ':' then do
      let groups ← (segments ':' s).mapM (digits 10)
      return groups.foldl (fun acc n => 60 * acc + n) 0
    else digits 10 s

def integer (s : List Char) : Except Fault Int := do
  let (negative, ds) := splitSign (dropUnderscores s)
  let n ← unsigned ds
  return if negative then -n else n

/-- The float that a text spells. -/
def decimal (s : List Char) : Except Fault Binary :=
  match float? s with
  | some x => return x
  | none => fail (.float (String.ofList s))

/-- The sum of digit groups in base sixty, from the last group up; every product and every sum
    is rounded. -/
def sixties (groups : List Binary) : Binary :=
  (groups.foldl (fun (acc : Binary × Nat) g =>
    (acc.1.add (g.mul (.ofRatio false acc.2 1)), acc.2 * 60)) (.zero false, 1)).1

/-- The float that a text without underscores and sign spells. -/
def magnitude (s : List Char) : Except Fault Binary :=
  if s = ".inf".toList then return .infinite false
  else if s = ".nan".toList then return .nan
  else if s.contains ':' then do
    let groups ← (segments ':' s).mapM decimal
    return sixties groups.reverse
  else decimal s

/-- The text of a float as it is read: without underscores and in small letters. -/
def folded (text : String) : List Char :=
  (lower (String.ofList (dropUnderscores text.toList))).toList

/-- Whether a text is the word for a non-number, with or without a sign. -/
def isNan (text : String) : Bool :=
  (splitSign (folded text)).2 == ".nan".toList

/-- The float that a text spells. -/
def float (text : String) : Except Fault Binary := do
  let s := folded text
  if s.isEmpty then fail .empty
  else
    let (negative, ds) := splitSign s
    let x ← magnitude ds
    return if negative then x.neg else x

/-- The octets that a text spells in base 64. -/
def octets (s : List Char) : Except Fault (List UInt8) :=
  match if s.all (·.toNat < 0x80) then Base64.decode? s else none with
  | some bytes => return bytes
  | none => throw .malformed

def timestamp (s : List Char) : Except Fault Value :=
  match timestamp? s with
  | none => fail .timestamp
  | some t =>
    match t.value with
    | .ok v => return v
    | .error part => fail (.outOfRange part)

/-- The value of a scalar of some kind. -/
def value (kind : Kind) (text : String) : Except Fault Value :=
  match kind with
  | .null => return .null
  | .bool => Value.bool <$> truth text
  | .int => Value.int <$> integer text.toList
  | .float => Value.float <$> float text
  | .binary => Value.octets <$> octets text.toList
  | .timestamp => timestamp text.toList
  | .str => return .str text
  | _ => throw .malformed

end Scalar

end EmmyStubs.Yaml
