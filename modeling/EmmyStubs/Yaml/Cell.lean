import EmmyStubs.Yaml.Merge
import EmmyStubs.Yaml.SetOrder

/-! # Cells

    What becomes of a node: a scalar is a value at once, a collection first names its parts by
    their places.  Collections get their parts in the order in which they were met, the
    outermost first, so of several faults the one nearest to the root is told.  In the end the
    values of all cells are put together from those of their parts (§3); a value that is a part
    of itself stays in the table of all values. -/

namespace EmmyStubs.Yaml

/-! ## §1. Making cells -/

/-- A value, or a collection of the values at some places. -/
inductive Cell where
  | value (v : Value)
  | list (items : List Nat)
  | pairs (items : List (Nat × Nat))
  | set (items : List Value)
  | map (entries : List (Value × Nat))
  deriving Repr

/-- The nodes, what was made of them so far, and the collections that still lack their parts,
    the last one met first.  `fuel` bounds the length of every chain of merges. -/
structure Making where
  nodes : Array Node
  cells : Array (Option Cell)
  waiting : List Nat
  fuel : Nat

namespace Making

/-- Nothing is made yet.  Every merge key is used once, so the entries that merges bring in
    are fewer than two to the number of all parts. -/
def start (nodes : Array Node) : Making :=
  ⟨nodes, Array.replicate nodes.size none, [], Nat.pow 2 (countParts nodes + 2)⟩

def cell? (m : Making) (i : Nat) : Option Cell :=
  (m.cells[i]?).join

def put (i : Nat) (c : Cell) (m : Making) : Making :=
  { m with cells := m.cells.setIfInBounds i (some c) }

/-- The text of a scalar; a mapping with a default mark among its keys stands for the scalar
    behind the mark. -/
def scalarText (nodes : Array Node) : Nat → Nat → Except Fault String
  | 0, _ => throw .malformed
  | fuel + 1, i =>
    match contentAt nodes i with
    | .scalar text => return text
    | .mapping es =>
      match es.find? fun e => kindAt nodes e.1 == some .default with
      | some e => scalarText nodes fuel e.2
      | none => throw .malformed
    | .sequence _ => throw .malformed

/-- The value of a node as a scalar of some kind. -/
def scalar (m : Making) (kind : Kind) (i : Nat) : Except Fault Value := do
  let text ← scalarText m.nodes (m.nodes.size + 1) i
  match kind, contentAt m.nodes i with
  | .timestamp, .mapping _ => throw (.misspelled .timestampOfMapping)
  | _, _ => Scalar.value kind text

/-- Whether the values of a kind have parts. -/
def hasParts : Kind → Bool
  | .seq | .omap | .pairs | .set | .map => true
  | _ => false

/-- Sees to it that something is made of a node. -/
def make (i : Nat) (m : Making) : Except Fault Making :=
  match m.cell? i, kindAt m.nodes i with
  | some _, _ => return m
  | none, none => throw .malformed
  | none, some kind =>
    if hasParts kind then return { m.put i (.list []) with waiting := i :: m.waiting }
    else do
      let v ← m.scalar kind i
      return m.put i (.value v)

def makeAll (m : Making) (items : List Nat) : Except Fault Making :=
  items.foldlM (fun m i => m.make i) m

/-! ## §2. Parts -/

/-- Makes the one entry of every mapping in a list. -/
def makePairs : Making → List Nat → Except Fault (List (Nat × Nat) × Making)
  | m, [] => return ([], m)
  | m, i :: items =>
    match contentAt m.nodes i with
    | .mapping [(k, v)] => do
      let m ← m.make k
      let m ← m.make v
      let (es, m) ← makePairs m items
      return ((k, v) :: es, m)
    | _ => throw .malformed

/-- A key with what tells non-numbers apart. -/
structure Key where
  value : Value
  origin : Option Nat
  deriving Repr

/-- The key made of a node.  Two non-numbers are never equal, so each is a key by the place that
    it came from; only the word for one means the same non-number everywhere. -/
def keyOf (m : Making) (i : Nat) (v : Value) : Key :=
  match v, scalarText m.nodes (m.nodes.size + 1) i with
  | .float .nan, .ok text => ⟨v, if Scalar.isNan text then none else some i⟩
  | _, _ => ⟨v, none⟩

def Key.same (a b : Key) : Bool :=
  a.value.sameKey b.value && a.origin == b.origin

/-- Makes entries in turn, behind others that are there.  A key has no parts. -/
def makeEntries (acc : List (Key × Nat)) :
    Making → List (Nat × Nat) → Except Fault (List (Key × Nat) × Making)
  | m, [] => return (acc, m)
  | m, (k, v) :: es => do
    let m ← m.make k
    match m.cell? k with
    | some (.value key) =>
      let m ← m.make v
      makeEntries (Value.insertEntry Key.same (m.keyOf k key) v acc) m es
    | _ => throw .malformed

/-- Makes the entries of a mapping, those brought in by merges among them. -/
def makeMapping (i : Nat) (m : Making) : Except Fault (List (Value × Nat) × Making) := do
  let nodes ← mergeInto i m.fuel m.nodes
  let (es, m) ← makeEntries [] { m with nodes } (entriesAt nodes i)
  return (es.map fun e => (e.1.value, e.2), m)

/-- Gives a collection its parts. -/
def finish (m : Making) (i : Nat) : Except Fault Making :=
  match kindAt m.nodes i, contentAt m.nodes i with
  | some .seq, .sequence items => do
    let m ← m.makeAll items
    return m.put i (.list items)
  | some .omap, .sequence items | some .pairs, .sequence items => do
    let (es, m) ← m.makePairs items
    return m.put i (.pairs es)
  | some .map, .mapping _ => do
    let (es, m) ← m.makeMapping i
    return m.put i (.map es)
  | some .set, .mapping _ => do
    let (es, m) ← m.makeMapping i
    return m.put i (.set (SetOrder.arrange (es.map (·.1))))
  | _, _ => throw .malformed

/-- Finishes all collections, round by round.  In each round but the last a collection is
    finished that was not met before, so there are no more rounds than nodes. -/
def finishAll : Nat → Making → Except Fault Making
  | 0, m => return m
  | rounds + 1, m =>
    if m.waiting.isEmpty then return m
    else do
      let m ← m.waiting.reverse.foldlM finish { m with waiting := [] }
      finishAll rounds m

end Making

/-! ## §3. Putting values together -/

/-- The value of a cell, when those of its parts are known. -/
def Cell.value? (known : Nat → Option Value) : Cell → Option Value
  | .value v => some v
  | .list items => (items.mapM known).map .list
  | .pairs items => do
    let pairs ← items.mapM fun (p : Nat × Nat) => do
      return Value.pair (← known p.1) (← known p.2)
    return .list pairs
  | .set items => some (.set items)
  | .map entries => do
    let entries ← entries.mapM fun (e : Value × Nat) => do
      return (e.1, ← known e.2)
    return .map entries

/-- The values found so far, by place. -/
abbrev Found := Array (Option Value)

/-- Looks at one cell. -/
def settle (cells : Array (Option Cell)) (found : Found) (i : Nat) : Found :=
  match (found[i]?).join, (cells[i]?).join with
  | none, some c =>
    match c.value? fun j => (found[j]?).join with
    | some v => found.setIfInBounds i (some v)
    | none => found
  | _, _ => found

/-- The number of values found. -/
def Found.count (found : Found) : Nat :=
  found.foldl (fun n v => if v.isSome then n + 1 else n) 0

/-- Looks at the cells in an order, again and again while new values come up. -/
def settleAll (cells : Array (Option Cell)) (order : List Nat) : Nat → Found → Found
  | 0, found => found
  | rounds + 1, found =>
    let next := order.foldl (settle cells) found
    if next.count = found.count then next else settleAll cells order rounds next

/-- One layer of the value at a place: parts whose values were not found are named by their
    places. -/
def layer (cells : Array (Option Cell)) (found : Found) (i : Nat) : Value :=
  match (cells[i]?).join with
  | some c => (c.value? fun j => some ((found[j]?).join.getD (.back j))).getD .null
  | none => .null

/-- The value of a document. -/
def Document.value (d : Document) : Except Fault Value := do
  let m ← (Making.start d.nodes).make d.root
  let m ← m.finishAll (d.nodes.size + 1)
  let n := d.nodes.size
  let found := settleAll m.cells d.finished (n + 1) (Array.replicate n none)
  match (found[d.root]?).join with
  | some v => return v
  | none => return .knot ((List.range n).map (layer m.cells found)) d.root

end EmmyStubs.Yaml
