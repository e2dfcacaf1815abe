import EmmyStubs.Calendar
import EmmyStubs.Number.Limit
import EmmyStubs.Number.Shortest
import EmmyStubs.Text.Quoted

/-! # Document values

    What a dump or a settings file holds once it is read: null, truth values, integers of any
    size, numbers with a fraction, texts, octets, days and moments, lists, pairs, sets, and maps
    that keep the order of their keys.  A value may hold itself: such values stand in a table
    and refer to one another by their places in it.  §2 looks inside values; §4 gives the two
    texts of a value: the one shown inside messages, and the plain one, which differs at the top
    only.  A value has neither where an integer in it has too many digits. -/

namespace EmmyStubs

/-! ## §1. Values -/

/-- A value.  `knot table i` is the value at place `i` of a table; inside the table, `back j`
    stands for the one at place `j`. -/
inductive Value where
  | null
  | bool (b : Bool)
  | int (n : Int)
  | float (x : Number.Binary)
  | str (s : String)
  | octets (bytes : List UInt8)
  | date (d : Calendar.Date)
  | moment (m : Calendar.Moment)
  | pair (first second : Value)
  | list (items : List Value)
  | set (items : List Value)
  | map (entries : List (Value × Value))
  | back (place : Nat)
  | knot (table : List Value) (place : Nat)
  deriving Repr, Inhabited

namespace Value

/-! ## §2. Looking inside -/

/-- A value of a table as it is seen outside of it. -/
def tied (table : List Value) : Value → Value
  | .back i => .knot table i
  | .pair a b => .pair (tied table a) (tied table b)
  | v => v

/-- The outermost layer of a value that stands in a table; any other value is its own. -/
def opened : Value → Value
  | .knot table i =>
    match table[i]? with
    | some (.list items) => .list (items.map (tied table))
    | some (.map entries) => .map (entries.map fun e => (e.1, tied table e.2))
    | _ => .knot table i
  | v => v

/-- The items of a list. -/
def items? (v : Value) : Option (List Value) :=
  match v.opened with
  | .list items => some items
  | _ => none

/-- The entries of a map. -/
def entries? (v : Value) : Option (List (Value × Value)) :=
  match v.opened with
  | .map entries => some entries
  | _ => none

/-- Whether the value counts as true when it is used as a flag: null, false, the zeros and
    everything empty do not. -/
def truthy : Value → Bool
  | .null => false
  | .bool b => b
  | .int n => n != 0
  | .float x => !x.isZero
  | .str s => s != ""
  | .octets bytes => !bytes.isEmpty
  | .list items => !items.isEmpty
  | .set items => !items.isEmpty
  | .map entries => !entries.isEmpty
  | _ => true

def isNull : Value → Bool
  | .null => true
  | _ => false

/-- The word for the shape of a value in messages. -/
def shapeName (v : Value) : String :=
  match v.opened with
  | .null => "NoneType"
  | .bool _ => "bool"
  | .int _ => "int"
  | .float _ => "float"
  | .str _ => "str"
  | .octets _ => "bytes"
  | .date _ => "date"
  | .moment _ => "datetime"
  | .pair _ _ => "tuple"
  | .list _ => "list"
  | .set _ => "set"
  | _ => "map"

/-! ## §3. Maps -/

/-- A scalar seen as a number, truth values included. -/
inductive Numeric where
  | int (n : Int)
  | float (x : Number.Binary)

def numeric? : Value → Option Numeric
  | .bool b => some (.int (if b then 1 else 0))
  | .int n => some (.int n)
  | .float x => some (.float x)
  | _ => none

/-- Whether two values are the same key of a map.  Numbers are compared by what they denote,
    so `1`, `1.0` and `true` are one key; lists, sets and maps are no keys. -/
def sameKey (a b : Value) : Bool :=
  match a, b with
  | .null, .null => true
  | .str s, .str t => s == t
  | .octets x, .octets y => x == y
  | .date x, .date y => x == y
  | .moment x, .moment y => x.same y
  | _, _ =>
    match a.numeric?, b.numeric? with
    | some (.int m), some (.int n) => m == n
    | some (.int m), some (.float y) => y.toInt? == some m
    | some (.float x), some (.int n) => x.toInt? == some n
    | some (.float x), some (.float y) => x.same y
    | _, _ => false

/-- Sets a key: a present key, which is one that is the `same`, keeps its place and takes the
    new value; a new one goes last. -/
def insertEntry {κ α : Type} (same : κ → κ → Bool) (k : κ) (v : α) : List (κ × α) → List (κ × α)
  | [] => [(k, v)]
  | (k', v') :: rest =>
    if same k' k then (k', v) :: rest else (k', v') :: insertEntry same k v rest

/-- The map of some entries in order; of several entries for a key the last value counts, at
    the place of the first. -/
def ofEntries (entries : List (Value × Value)) : Value :=
  .map (entries.foldl (fun acc e => insertEntry sameKey e.1 e.2 acc) [])

/-- The value of a text key among some entries. -/
def lookup (entries : List (Value × Value)) (key : String) : Option Value :=
  (entries.find? fun e => match e.1 with
    | .str s => s == key
    | _ => false).map (·.2)

/-- The value of a text key among some entries, null when the key is missing. -/
def field (entries : List (Value × Value)) (key : String) : Value :=
  (lookup entries key).getD .null

/-! ## §4. Texts -/

mutual
/-- The value as shown inside messages, where `atBack` shows what stands elsewhere in the
    table and `atKnot` a value of another table. -/
def shownWith (atBack : Nat → Option String) (atKnot : List Value → Nat → Option String) :
    Value → Option String
  | .null => return "None"
  | .bool b => return if b then "True" else "False"
  | .int n => Number.decimalText? n
  | .float x => return Number.layout.render x
  | .str s => return Text.Quoted.encode s
  | .octets bytes => return Text.Quoted.encodeOctets bytes
  | .date d => return d.shown
  | .moment m => return m.shown
  | .pair a b => do
    let first ← shownWith atBack atKnot a
    let second ← shownWith atBack atKnot b
    return "(" ++ first ++ ", " ++ second ++ ")"
  | .list items => do
    let texts ← shownItems atBack atKnot items
    return "[" ++ ", ".intercalate texts ++ "]"
  | .set items => do
    let texts ← shownItems atBack atKnot items
    return if items.isEmpty then "set()" else "\x7b" ++ ", ".intercalate texts ++ "\x7d"
  | .map entries => do
    let texts ← shownEntries atBack atKnot entries
    return "\x7b" ++ ", ".intercalate texts ++ "\x7d"
  | .back i => atBack i
  | .knot table i => atKnot table i

def shownItems (atBack : Nat → Option String) (atKnot : List Value → Nat → Option String) :
    List Value → Option (List String)
  | [] => return []
  | v :: vs => do
    let text ← shownWith atBack atKnot v
    let texts ← shownItems atBack atKnot vs
    return text :: texts

def shownEntries (atBack : Nat → Option String) (atKnot : List Value → Nat → Option String) :
    List (Value × Value) → Option (List String)
  | [] => return []
  | (k, v) :: es => do
    let key ← shownWith atBack atKnot k
    let value ← shownWith atBack atKnot v
    let texts ← shownEntries atBack atKnot es
    return (key ++ ": " ++ value) :: texts
end

/-- What stands in place of a value inside itself. -/
def ellipsis : Value → String
  | .map _ => "\x7b...\x7d"
  | _ => "[...]"

/-- The text of the value at place `i` of a table, inside those at the places `around`.  No
    place is entered twice, so `fuel` need not exceed the size of the table. -/
def shownAt (table : List Value) : Nat → List Nat → Nat → Option String
  | 0, _, i => some (ellipsis (table[i]?.getD .null))
  | fuel + 1, around, i =>
    let v := table[i]?.getD .null
    if i ∈ around then some (ellipsis v)
    else shownWith (shownAt table fuel (i :: around)) (fun _ _ => some "") v

/-- The value as shown inside messages, if its integers can be written. -/
def shown? (v : Value) : Option String :=
  shownWith (fun _ => some "") (fun table i => shownAt table (table.length + 1) [] i) v

/-- The plain text of a value, if its integers can be written: a text stands for itself, days
    and moments are written as such. -/
def text? : Value → Option String
  | .str s => some s
  | .date d => some d.text
  | .moment m => some m.text
  | v => v.shown?

/-- The value as shown inside messages, empty where it cannot be shown. -/
def shown (v : Value) : String :=
  v.shown?.getD ""

/-- The plain text of a value, empty where it has none. -/
def text (v : Value) : String :=
  v.text?.getD ""

@[simp] theorem text_str (s : String) : (Value.str s).text = s := rfl

example : (Value.knot [.list [.int 1, .back 0, .back 1], .map [(.str "a", .back 0)]] 1).shown?
    = some "\x7b'a': [1, [...], \x7b...\x7d]\x7d" := by decide +kernel

end Value

end EmmyStubs
