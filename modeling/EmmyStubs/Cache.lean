import EmmyStubs.Graph.Descriptor

/-! # Caches

    A cache is written once per key: the first value stored for a key is the value.  A vacant
    value counts as held by `store`, but a look-up does not find it.  The cache counts the
    look-ups that found a value, and the computations that a missing value started. -/

namespace EmmyStubs

/-- A type some of whose values count as no value in a look-up. -/
class Vacant (α : Type) where
  isVacant : α → Bool

instance : Vacant Value := ⟨Value.isNull⟩

/-- No text is vacant. -/
instance : Vacant String := ⟨fun _ => false⟩

/-- The numbers a cache reports about itself. -/
structure CacheStats where
  entries : Nat
  hits : Nat
  misses : Nat
  deriving DecidableEq, Repr

/-- Entries in the order of their first storing, and the two counts. -/
structure Cache (α : Type) where
  entries : List (Identity × α)
  hits : Nat
  misses : Nat

namespace Cache

variable {α : Type}

def empty : Cache α :=
  ⟨[], 0, 0⟩

/-! ## §1. What is held -/

/-- The value held for a key. -/
def held? (c : Cache α) (key : Identity) : Option α :=
  (c.entries.find? (·.1 == key)).map (·.2)

def contains (c : Cache α) (key : Identity) : Bool :=
  (c.held? key).isSome

def size (c : Cache α) : Nat :=
  c.entries.length

def keys (c : Cache α) : List Identity :=
  c.entries.map (·.1)

def stats (c : Cache α) : CacheStats :=
  ⟨c.size, c.hits, c.misses⟩

variable [Vacant α]

/-- The value that a look-up finds: the held one unless it is vacant. -/
def found? (c : Cache α) (key : Identity) : Option α :=
  (c.held? key).filter fun v => !Vacant.isVacant v

/-! ## §2. Operations -/

/-- Looks a key up, and counts the hit. -/
def get (c : Cache α) (key : Identity) : Option α × Cache α :=
  match c.found? key with
  | some v => (some v, { c with hits := c.hits + 1 })
  | none => (none, c)

/-- Counts a computation. -/
def miss (c : Cache α) : Cache α :=
  { c with misses := c.misses + 1 }

/-- Stores a value unless one is held, and gives the one held then. -/
def store (c : Cache α) (key : Identity) (value : α) : α × Cache α :=
  match c.held? key with
  | some v => (v, c)
  | none => (value, { c with entries := c.entries ++ [(key, value)] })

/-- The value of a key, computed where a look-up finds none.  The flag tells whether it was
    computed. -/
def getOrCompute (c : Cache α) (key : Identity) (compute : Unit → α) : (α × Bool) × Cache α :=
  match c.get key with
  | (some v, c) => ((v, false), c)
  | (none, c) =>
    let (v, c) := c.miss.store key (compute ())
    ((v, true), c)

end Cache

end EmmyStubs
