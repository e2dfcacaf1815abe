import EmmyStubs.Yaml.Node

/-! # Merge keys

    A merge key brings the entries of other mappings into its own mapping, in front of all that
    stand there.  It is taken away first, and the mappings that it names lose their merge keys
    in the same way before their entries are copied; so an alias that leads back finds fewer
    merge keys each time, and every chain of merges ends.  A default mark is a text as a key. -/

namespace EmmyStubs.Yaml

/-! ## §1. Nodes by place -/

/-- The kind of the node at a place. -/
def kindAt (nodes : Array Node) (i : Nat) : Option Kind :=
  nodes[i]?.bind (·.kind)

def contentAt (nodes : Array Node) (i : Nat) : Content :=
  (nodes[i]?.getD default).content

/-- The entries of the mapping at a place. -/
def entriesAt (nodes : Array Node) (i : Nat) : List (Nat × Nat) :=
  match contentAt nodes i with
  | .mapping es => es
  | _ => []

/-- Puts other entries into the mapping at a place. -/
def setEntries (nodes : Array Node) (i : Nat) (es : List (Nat × Nat)) : Array Node :=
  nodes.modify i fun n => { n with content := .mapping es }

/-- The number of parts that all nodes have together. -/
def countParts (nodes : Array Node) : Nat :=
  nodes.foldl (fun acc n => acc + match n.content with
    | .scalar _ => 1
    | .sequence is => is.length + 1
    | .mapping es => 2 * es.length + 1) 0

/-! ## §2. Merging -/

/-- Whether a key is a mark. -/
def isMark (nodes : Array Node) (key : Nat) : Bool :=
  kindAt nodes key == some .merge || kindAt nodes key == some .default

mutual
/-- Gives the mapping at place `i` the entries that its merge keys bring in. -/
def mergeInto (i : Nat) : Nat → Array Node → Except Fault (Array Node)
  | 0, _ => throw .malformed
  | fuel + 1, nodes =>
    if (entriesAt nodes i).any fun e => isMark nodes e.1 then do
      let (es, nodes) ← mergedFrom i 0 fuel nodes
      return setEntries nodes i (es ++ entriesAt nodes i)
    else return nodes
termination_by structural fuel => fuel

/-- Takes away the merge keys from the `k`-th entry of the mapping at place `i` on, and gives
    the entries that they bring in. -/
def mergedFrom (i k : Nat) : Nat → Array Node → Except Fault (List (Nat × Nat) × Array Node)
  | 0, _ => throw .malformed
  | fuel + 1, nodes =>
    match (entriesAt nodes i)[k]? with
    | none => return ([], nodes)
    | some (key, value) =>
      match kindAt nodes key with
      | some .merge => do
        let (es, nodes) ← broughtIn value fuel
          (setEntries nodes i ((entriesAt nodes i).eraseIdx k))
        let (rest, nodes) ← mergedFrom i k fuel nodes
        return (es ++ rest, nodes)
      | some .default =>
        mergedFrom i (k + 1) fuel (nodes.modify key fun n => { n with kind := some .str })
      | _ => mergedFrom i (k + 1) fuel nodes
termination_by structural fuel => fuel

/-- The entries that the value of a merge key brings in. -/
def broughtIn (value : Nat) : Nat → Array Node → Except Fault (List (Nat × Nat) × Array Node)
  | 0, _ => throw .malformed
  | fuel + 1, nodes =>
    match contentAt nodes value with
    | .mapping _ => do
      let nodes ← mergeInto value fuel nodes
      return (entriesAt nodes value, nodes)
    | .sequence items => broughtInBy items fuel nodes
    | .scalar _ => throw .malformed
termination_by structural fuel => fuel

/-- The entries that some mappings bring in, those of a later one first. -/
def broughtInBy (items : List Nat) :
    Nat → Array Node → Except Fault (List (Nat × Nat) × Array Node)
  | 0, _ => throw .malformed
  | fuel + 1, nodes =>
    match items with
    | [] => return ([], nodes)
    | i :: items =>
      match contentAt nodes i with
      | .mapping _ => do
        let nodes ← mergeInto i fuel nodes
        let es := entriesAt nodes i
        let (rest, nodes) ← broughtInBy items fuel nodes
        return (rest ++ es, nodes)
      | _ => throw .malformed
termination_by structural fuel => fuel
end

end EmmyStubs.Yaml
