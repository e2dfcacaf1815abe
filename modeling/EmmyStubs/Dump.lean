import EmmyStubs.Abort
import EmmyStubs.Dump.Entry
import EmmyStubs.Graph.Basic
import EmmyStubs.Json

/-! # Dumps

    A dump lists the types of one assembly.  Reading it gives the described types in their
    order, and the external types that they refer to, directly or through other references;
    together they form a graph in which every link leads somewhere.  Types that contain or
    extend themselves are refused. -/

namespace EmmyStubs

/-- The types of an assembly, and the outside types that they refer to. -/
structure Dump where
  name : String
  source : Option String
  types : List Descriptor
  externals : List Descriptor

namespace Dump

def graph (dump : Dump) : Graph :=
  ⟨dump.types ++ dump.externals⟩

/-- What a dump says of itself once it is loaded. -/
def summary (dump : Dump) : String :=
  "Loaded " ++ Nat.repr dump.types.length ++ " descriptors ("
    ++ Nat.repr dump.externals.length ++ " external references) from "
    ++ match dump.source with
      | some s => if s = "" then dump.name else s
      | none => dump.name

/-! ## §1. Linking -/

/-- The external types that some described types refer to. -/
def externalsOf (ds : List Descriptor) : Except Error (List Descriptor) := do
  let described := ds.map (·.identity)
  let brought ← ds.mapM fun d => d.links.mapM (expand described d.identity)
  return distinct (brought.flatten.flatten)

/-- The cycle that a type runs into along its declaring types or along its base types. -/
def cycle? (g : Graph) (d : Descriptor) : Option Flaw :=
  if g.revisits (·.declaring) [d.identity] d.declaring then some .cyclicDeclaring
  else if g.revisits (·.base) [d.identity] d.base then some .cyclicBase
  else none

/-- The first type that runs into a cycle is refused. -/
def checkCycles (g : Graph) : List Descriptor → Except Error Unit
  | [] => return ()
  | d :: ds =>
    match cycle? g d with
    | some flaw => throw ⟨some d.identity, flaw⟩
    | none => checkCycles g ds

/-- The described and the external types of some entries. -/
def link (entries : List Value) : Except Error (List Descriptor × List Descriptor) := do
  let ds ← outlines [] entries
  let described := ds.map (·.2.identity)
  let types ← ds.mapM fun (es, d) => complete described es d
  let externals ← externalsOf types
  checkCycles ⟨types ++ externals⟩ types
  return (types, externals)

/-! ## §2. Reading -/

/-- The dump that a map holds; `defaultName` is the name of an assembly that has none. -/
def ofEntries (defaultName : String) (source : Option String) (es : Entries) :
    Except Error Dump := do
  let given := Value.field es "types"
  let entries ← match given.items? with
    | some items => pure items
    | none => if given.truthy then throw ⟨none, .typesNotList⟩ else pure []
  let (types, externals) ← link entries
  let given := Value.field es "assembly"
  let name := if given.truthy then given.text else defaultName
  return ⟨name, source, types, externals⟩

/-- Whether a file holds YAML, as its ending tells. -/
def isYaml (path : Files.Path) : Bool :=
  let ending := Text.lower path.ending
  ending == ".yml" || ending == ".yaml"

/-- The dump that the value of a file holds, if the file has one. -/
def ofValue? (path : Files.Path) (given : Option Value) : Except Error Dump :=
  match given with
  | none => throw ⟨none, .unparsable path.name⟩
  | some v =>
    match v.entries? with
    | some es => ofEntries path.stem (some path.toString) es
    | none => throw ⟨none, .rootNotMap path.name⟩

/-- The value of a file text, where it is well-formed. -/
def valueOf (path : Files.Path) (text : String) : Except Abort (Option Value) :=
  if isYaml path then Abort.yamlValue? text else Abort.jsonValue? text

/-- Whether the name that a file gives its assembly can be written. -/
def hasName (given : Option Value) : Bool :=
  let es := (given.bind Value.entries?).getD []
  (Value.field es "assembly").text?.isSome

/-- The dump that the value of a file holds.  It ends the program where the reason for refusing
    it or the name of its assembly has an integer with too many digits. -/
def ofFile (path : Files.Path) (given : Option Value) : Except Abort (Except Error Dump) :=
  match ofValue? path given with
  | .error e => if e.flaw.isWritable then return .error e else throw (.excess .writing)
  | .ok dump => if hasName given then return .ok dump else throw (.excess .writing)

/-- Reads the dump at a path.  That nothing can be read there is a fault of the dump. -/
def load (tree : Files.Tree) (path : Files.Path) : Except Abort (Except Error Dump) :=
  match tree.read path with
  | .ok text => valueOf path text >>= ofFile path
  | .error (.met fault q) => return throw ⟨none, .unreadable path (.met fault q)⟩
  | .error .nullCharacter => throw (.file .nullCharacter)

end Dump

end EmmyStubs
