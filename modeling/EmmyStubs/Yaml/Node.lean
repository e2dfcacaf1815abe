import EmmyStubs.Yaml.Scalar
import EmmyStubs.Yaml.Token

/-! # The graph of a document

    A node is a scalar, a sequence or a mapping, and has a tag.  Nodes stand in a table and name
    their parts by places in it, so an alias is the place of the node that its anchor was put
    on, even while that node is still being read: a node may be a part of itself.  A document
    that is not well-formed, or not alone, is a fault. -/

namespace EmmyStubs.Yaml

/-! ## §1. Nodes -/

inductive Content where
  | scalar (text : String)
  | sequence (items : List Nat)
  | mapping (entries : List (Nat × Nat))
  deriving Repr

/-- A node; the kind is `none` where the tag is not known. -/
structure Node where
  kind : Option Kind
  content : Content
  deriving Repr

instance : Inhabited Node :=
  ⟨⟨none, .scalar ""⟩⟩

/-- All nodes, the places of the finished ones in the order in which they ended, and the place
    of the outermost one. -/
structure Document where
  nodes : Array Node
  finished : List Nat
  root : Nat

/-- The kind of a collection with an optional tag.  A bare exclamation mark asks for nothing. -/
def collectionKind (usual : Kind) : Option String → Option Kind
  | none => some usual
  | some t => if t == "!" then some usual else Kind.ofTag? t

/-- The kind of a scalar with an optional tag.  A bare exclamation mark asks for the kind of the
    spelling, and so does no tag on a plain scalar. -/
def scalarKind (tag : Option String) (plain : Bool) (text : String) : Option Kind :=
  match tag with
  | none => some (if plain then Scalar.kindOf text else .str)
  | some t => if t == "!" then some (Scalar.kindOf text) else Kind.ofTag? t

/-! ## §2. Reading state -/

/-- The tokens left, the anchors seen, the tag handles that hold, and the nodes so far. -/
structure Reading where
  tokens : List Token
  anchors : List (String × Nat)
  handles : List (String × String)
  nodes : Array Node
  finished : List Nat

namespace Reading

variable {α : Type}

def next? (r : Reading) : Option Token :=
  r.tokens.head?

def drop (r : Reading) : Reading :=
  { r with tokens := r.tokens.drop 1 }

def nextIn (r : Reading) (ts : List Token) : Bool :=
  match r.next? with
  | some t => ts.contains t
  | none => true

/-- The next token cannot stand here, or none could be read. -/
def refuse (r : Reading) : Except Fault α :=
  match r.next? with
  | some (.beyond n) => throw (.misspelled (.codePoint n))
  | _ => throw .malformed

/-- Puts an anchor on the node that comes next; a name is used once. -/
def declare (name : Option String) (r : Reading) : Except Fault Reading :=
  match name with
  | none => return r
  | some n =>
    if r.anchors.any (·.1 == n) then throw .malformed
    else return { r with anchors := (n, r.nodes.size) :: r.anchors }

/-- Takes in a node that ends here. -/
def close (i : Nat) (r : Reading) : Nat × Reading :=
  (i, { r with finished := i :: r.finished })

/-- Takes in a scalar. -/
def addScalar (kind : Option Kind) (text : String) (r : Reading) : Nat × Reading :=
  ({ r with nodes := r.nodes.push ⟨kind, .scalar text⟩ } : Reading).close r.nodes.size

/-- Takes in an absent scalar. -/
def addEmpty (r : Reading) : Nat × Reading :=
  r.addScalar (some .null) ""

/-- Takes in a collection whose parts are still to come. -/
def reserve (kind : Option Kind) (r : Reading) : Reading :=
  { r with nodes := r.nodes.push ⟨kind, .sequence []⟩ }

/-- Gives a collection its parts. -/
def fill (i : Nat) (content : Content) (r : Reading) : Nat × Reading :=
  ({ r with nodes := r.nodes.modify i fun n => { n with content } } : Reading).close i

/-- The full name of a tag. -/
def tagName (r : Reading) : TagName → Except Fault String
  | .full name => return name
  | .short handle suffix =>
    match r.handles.find? (·.1 == handle) with
    | some h => return h.2 ++ suffix
    | none => throw .malformed

/-- An anchor and a tag in front of a node, in either order. -/
def properties (r : Reading) : Except Fault (Option String × Option String × Reading) :=
  match r.next? with
  | some (.anchor a) =>
    let r := r.drop
    match r.next? with
    | some (.tag t) => return (some a, some (← r.tagName t), r.drop)
    | _ => return (some a, none, r)
  | some (.tag t) => do
    let name ← r.tagName t
    let r := r.drop
    match r.next? with
    | some (.anchor a) => return (some a, some name, r.drop)
    | _ => return (none, some name, r)
  | _ => return (none, none, r)

end Reading

/-! ## §3. Nodes from tokens -/

/-- The places of the items of a sequence, and what follows. -/
abbrev Items := Except Fault (List Nat × Reading)

/-- The places of the entries of a mapping, and what follows. -/
abbrev Entries := Except Fault (List (Nat × Nat) × Reading)

mutual
/-- A node.  `block` admits block collections, `loose` also a sequence whose entries stand at
    the column of their mapping.  `fuel` bounds the nodes and entries read. -/
def node (block loose : Bool) : Nat → Reading → Except Fault (Nat × Reading)
  | 0, _ => throw .malformed
  | fuel + 1, r =>
    match r.next? with
    | some (.alias name) =>
      match r.anchors.find? (·.1 == name) with
      | some (_, i) => return (i, r.drop)
      | none => throw .malformed
    | _ => do
      let (anchor, tag, r) ← r.properties
      let r ← r.declare anchor
      let i := r.nodes.size
      let absent : Except Fault (Nat × Reading) :=
        if anchor.isSome || tag.isSome then return r.addScalar (scalarKind tag true "") ""
        else r.refuse
      let list (items : Reading → Items) (r : Reading) : Except Fault (Nat × Reading) := do
        let (is, r) ← items (r.reserve (collectionKind .seq tag))
        return r.fill i (.sequence is)
      let dict (entries : Reading → Entries) (r : Reading) : Except Fault (Nat × Reading) := do
        let (es, r) ← entries (r.reserve (collectionKind .map tag))
        return r.fill i (.mapping es)
      match r.next? with
      | some .blockEntry => if loose then list (looseItems fuel) r else absent
      | some (.scalar text plain) => return r.drop.addScalar (scalarKind tag plain text) text
      | some .flowSequenceStart => list (flowItems true fuel) r.drop
      | some .flowMappingStart => dict (flowEntries true fuel) r.drop
      | some .blockSequenceStart => if block then list (blockItems fuel) r.drop else absent
      | some .blockMappingStart => if block then dict (blockEntries fuel) r.drop else absent
      | _ => absent

/-- The node behind a mark, or an empty one where one of `stops` follows. -/
def optional (block loose : Bool) (stops : List Token) :
    Nat → Reading → Except Fault (Nat × Reading)
  | 0, _ => throw .malformed
  | fuel + 1, r => if r.nextIn stops then return r.addEmpty else node block loose fuel r

/-- The items of a block sequence up to its end. -/
def blockItems : Nat → Reading → Items
  | 0, _ => throw .malformed
  | fuel + 1, r =>
    match r.next? with
    | some .blockEntry => do
      let (i, r) ← optional true false [.blockEntry, .blockEnd] fuel r.drop
      let (is, r) ← blockItems fuel r
      return (i :: is, r)
    | some .blockEnd => return ([], r.drop)
    | _ => r.refuse

/-- The items of a sequence without a block of its own; what follows is left. -/
def looseItems : Nat → Reading → Items
  | 0, _ => throw .malformed
  | fuel + 1, r =>
    match r.next? with
    | some .blockEntry => do
      let (i, r) ← optional true false [.blockEntry, .key, .value, .blockEnd] fuel r.drop
      let (is, r) ← looseItems fuel r
      return (i :: is, r)
    | _ => return ([], r)

/-- The value behind a key of a block mapping. -/
def blockValue : Nat → Reading → Except Fault (Nat × Reading)
  | 0, _ => throw .malformed
  | fuel + 1, r =>
    match r.next? with
    | some .value => optional true true [.key, .value, .blockEnd] fuel r.drop
    | _ => return r.addEmpty

/-- The entries of a block mapping up to its end. -/
def blockEntries : Nat → Reading → Entries
  | 0, _ => throw .malformed
  | fuel + 1, r =>
    match r.next? with
    | some .key => do
      let (k, r) ← optional true true [.key, .value, .blockEnd] fuel r.drop
      let (v, r) ← blockValue fuel r
      let (es, r) ← blockEntries fuel r
      return ((k, v) :: es, r)
    | some .blockEnd => return ([], r.drop)
    | _ => r.refuse

/-- The value behind a key in a flow collection that `close` ends. -/
def flowValue (close : Token) : Nat → Reading → Except Fault (Nat × Reading)
  | 0, _ => throw .malformed
  | fuel + 1, r =>
    match r.next? with
    | some .value => optional false false [.flowEntry, close] fuel r.drop
    | _ => return r.addEmpty

/-- The items of a flow sequence up to its bracket.  A single entry of a mapping may stand as
    an item. -/
def flowItems (first : Bool) : Nat → Reading → Items
  | 0, _ => throw .malformed
  | fuel + 1, r =>
    match r.next? with
    | some .flowSequenceEnd => return ([], r.drop)
    | t =>
      if !first && t != some .flowEntry then r.refuse
      else
        let r := if first then r else r.drop
        match r.next? with
        | some .flowSequenceEnd => return ([], r.drop)
        | some .key => do
          let i := r.nodes.size
          let r := r.drop.reserve (some .map)
          let (k, r) ← optional false false [.value, .flowEntry, .flowSequenceEnd] fuel r
          let (v, r) ← flowValue .flowSequenceEnd fuel r
          let (i, r) := r.fill i (.mapping [(k, v)])
          let (is, r) ← flowItems false fuel r
          return (i :: is, r)
        | _ => do
          let (i, r) ← node false false fuel r
          let (is, r) ← flowItems false fuel r
          return (i :: is, r)

/-- The entries of a flow mapping up to its brace.  A node without a colon is a key. -/
def flowEntries (first : Bool) : Nat → Reading → Entries
  | 0, _ => throw .malformed
  | fuel + 1, r =>
    match r.next? with
    | some .flowMappingEnd => return ([], r.drop)
    | t =>
      if !first && t != some .flowEntry then r.refuse
      else
        let r := if first then r else r.drop
        match r.next? with
        | some .flowMappingEnd => return ([], r.drop)
        | some .key => do
          let (k, r) ← optional false false [.value, .flowEntry, .flowMappingEnd] fuel r.drop
          let (v, r) ← flowValue .flowMappingEnd fuel r
          let (es, r) ← flowEntries false fuel r
          return ((k, v) :: es, r)
        | _ => do
          let (k, r) ← node false false fuel r
          let (v, r) := r.addEmpty
          let (es, r) ← flowEntries false fuel r
          return ((k, v) :: es, r)
end

/-! ## §4. The document -/

/-- The tag handles that some directives set, with the two that always hold.  One version of
    the first format generation may be named, and every handle once. -/
def handles? (ds : List Directive) : Option (List (String × String)) :=
  let versions := ds.filterMap fun
    | .version major _ => some major
    | _ => none
  let own := ds.filterMap fun
    | .tagHandle h s => some (h, s)
    | _ => none
  if versions.length ≤ 1 && versions.all (· == 1) && (own.map (·.1)).eraseDups.length == own.length
  then some (own ++ [("!", "!"), ("!!", coreStem)])
  else none

/-- The directives in front of a document start. -/
def leadingDirectives : List Token → List Directive × List Token
  | .directive d :: ts =>
    let (ds, ts) := leadingDirectives ts
    (d :: ds, ts)
  | ts => ([], ts)

/-- The document whose outermost node was read, when nothing but document ends follows.  The
    directives in front of another document are looked at before that is refused. -/
def Reading.ended (i : Nat) (r : Reading) : Except Fault Document :=
  match leadingDirectives (r.tokens.dropWhile (· == .documentEnd)) with
  | ([], [.streamEnd]) => return ⟨r.nodes, r.finished.reverse, i⟩
  | (ds, tokens) =>
    if (handles? ds).isSome then ({ r with tokens } : Reading).refuse else throw .malformed

/-- The one document that some tokens form; none at all gives `none`. -/
def document (tokens : List Token) : Except Fault (Option Document) := do
  let fuel := 4 * tokens.length + 4
  let start (handles : List (String × String)) (ts : List Token) : Reading :=
    ⟨ts, [], handles, #[], []⟩
  let explicit := match tokens with
    | .directive _ :: _ | .documentStart :: _ | .streamEnd :: _ => true
    | _ => false
  let (ds, ts) := if explicit then leadingDirectives tokens else ([], tokens)
  match handles? ds with
  | none => throw .malformed
  | some handles =>
    if !explicit then
      let (i, r) ← node true false fuel (start handles ts)
      return some (← r.ended i)
    else
      match ts with
      | [.streamEnd] => if ds.isEmpty then return none else throw .malformed
      | .documentStart :: ts =>
        let empty := match ts with
          | .directive _ :: _ | .documentStart :: _ | .documentEnd :: _ | .streamEnd :: _ => true
          | _ => false
        let r := start handles ts
        let (i, r) ← if empty then pure r.addEmpty else node true false fuel r
        return some (← r.ended i)
      | _ => (start handles ts).refuse

end EmmyStubs.Yaml
