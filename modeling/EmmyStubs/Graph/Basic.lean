import EmmyStubs.Graph.Descriptor

/-! # The graph of types

    A graph is a finite table of descriptors; links are followed by looking identities up.
    A walk along links remembers where it has been, so the number of types not seen yet falls
    with every step and every walk ends, whatever cycles the links form. -/

namespace EmmyStubs

/-! ## §1. Look-up -/

structure Graph where
  descriptors : List Descriptor

namespace Graph

/-- The descriptor of an identity. -/
def find? (g : Graph) (id : Identity) : Option Descriptor :=
  g.descriptors.find? (·.identity == id)

/-- The descriptors of some identities, those that have one. -/
def findAll (g : Graph) (ids : List Identity) : List Descriptor :=
  ids.filterMap g.find?

theorem identity_of_find? {g : Graph} {id : Identity} {d : Descriptor}
    (h : g.find? id = some d) : d.identity = id := by
  have := List.find?_some h
  simpa using this

theorem mem_of_find? {g : Graph} {id : Identity} {d : Descriptor}
    (h : g.find? id = some d) : d ∈ g.descriptors :=
  List.mem_of_find?_eq_some h

/-! ## §2. What is left to see -/

/-- The number of descriptors whose identity is not among those seen. -/
def unseen (g : Graph) (seen : List Identity) : Nat :=
  (g.descriptors.filter fun d => d.identity ∉ seen).length

/-- Seeing one more type of the graph leaves fewer unseen. -/
theorem unseen_cons_lt {g : Graph} {seen : List Identity} {id : Identity} {d : Descriptor}
    (hd : g.find? id = some d) (hn : id ∉ seen) : g.unseen (id :: seen) < g.unseen seen := by
  have hsplit : (g.descriptors.filter fun d => d.identity ∉ id :: seen)
      = (g.descriptors.filter fun d => d.identity ∉ seen).filter fun d => d.identity ≠ id := by
    rw [List.filter_filter]
    congr 1
    funext e
    simp [List.mem_cons, not_or]
  unfold unseen
  rw [hsplit, List.length_filter_lt_length_iff_exists]
  have hid := identity_of_find? hd
  refine ⟨d, ?_, by simp [hid]⟩
  simp only [List.mem_filter, decide_eq_true_eq]
  exact ⟨mem_of_find? hd, hid ▸ hn⟩

/-! ## §3. Walks along one link -/

/-- The descriptors met by following `next` from `start`, up to the first that was seen. -/
def chain (g : Graph) (next : Descriptor → Option Identity) (seen : List Identity)
    (start : Option Identity) : List Descriptor :=
  match start with
  | none => []
  | some id =>
    if _hn : id ∈ seen then []
    else
      match _hd : g.find? id with
      | none => []
      | some d => d :: g.chain next (id :: seen) (next d)
termination_by g.unseen seen
decreasing_by exact unseen_cons_lt _hd _hn

/-- Whether following `next` from `start` comes back to a type that was seen. -/
def revisits (g : Graph) (next : Descriptor → Option Identity) (seen : List Identity)
    (start : Option Identity) : Bool :=
  match start with
  | none => false
  | some id =>
    if _hn : id ∈ seen then true
    else
      match _hd : g.find? id with
      | none => false
      | some d => g.revisits next (id :: seen) (next d)
termination_by g.unseen seen
decreasing_by exact unseen_cons_lt _hd _hn

/-- A type followed by its base types, most derived first. -/
def hierarchy (g : Graph) (d : Descriptor) : List Descriptor :=
  d :: g.chain (·.base) [d.identity] d.base

/-- The types around a nested type, outermost first. -/
def declaringChain (g : Graph) (d : Descriptor) : List Descriptor :=
  (g.chain (·.declaring) [] d.declaring).reverse

/-- Whether a type, or a type around it, was made by a compiler. -/
def isCompilerGenerated (g : Graph) (d : Descriptor) : Bool :=
  (d :: g.chain (·.declaring) [d.identity] d.declaring).any (·.isCompilerGenerated)

end Graph

end EmmyStubs
