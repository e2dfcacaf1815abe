import EmmyStubs.Abort
import EmmyStubs.Mapping.Options
import EmmyStubs.Number.Numeral
import EmmyStubs.Text.Blank
import EmmyStubs.Text.Fold

/-! # Settings

    A settings file names the dumps to read, with the filters for each, where the stubs go, and
    how types are mapped.  What it leaves out has a default, and so has everything when there
    is no file.  Scalars are taken liberally, a number where a text is wanted for instance; the
    faults are in `SettingsError`.  An integer with too many digits for a text is no such fault:
    it ends the program. -/

namespace EmmyStubs

open EmmyStubs.Files

/-! ## §1. Settings -/

/-- A dump and the filters that select types from it. -/
structure Settings.Assembly where
  path : Path
  filters : List String
  deriving DecidableEq, Repr

structure Settings where
  root : Path
  assemblies : List Settings.Assembly := []
  output : Option Path := none
  workers : Nat := 4
  options : Options := {}
  templates : Option Path := none
  deriving Repr

namespace Settings

def fileName : String := ".luastubs.yml"

/-- The directory for the stubs, by default below that of the settings. -/
def outputDirectory (s : Settings) : Path :=
  s.output.getD (s.root.child "output")

end Settings

inductive SettingsError where
  | unparsable (fileName : String)
  | rootNotMap (fileName : String)
  | assembliesNotList
  | missingPath (index : Nat)
  | badWorkers
  | badStyle
  deriving DecidableEq, Repr

/-- What is said of a settings file that does not parse. -/
def SettingsError.parseDetail : String := "malformed document"

def SettingsError.message : SettingsError → String
  | .unparsable fileName => "Failed to parse " ++ fileName ++ ": " ++ parseDetail
  | .rootNotMap fileName => fileName ++ " must contain a mapping at the root"
  | .assembliesNotList => "'assemblies' must be a list"
  | .missingPath index => "assemblies[" ++ Nat.repr index ++ "] is missing 'path'"
  | .badWorkers => "'workers' must be a positive integer"
  | .badStyle =>
    "'enumerable_style' must be one of: "
      ++ ", ".intercalate (EnumerableStyle.all.map EnumerableStyle.name)

namespace Settings

/-- What reading a part of the settings gives.  The outer error ends the program, the inner one
    is a fault of the settings. -/
abbrev Reading := ExceptT SettingsError (Except Abort)

/-- Ends the program. -/
def Reading.abort {α : Type} (e : Abort) : Reading α :=
  ExceptT.mk (throw e)

/-! ## §2. Scalars -/

/-- The text of a value that is a text or a number. -/
def text? : Value → Reading (Option String)
  | .str s => return some s
  | .int n =>
    match Number.decimalText? n with
    | some t => return some t
    | none => Reading.abort (.excess .writing)
  | .float x => return some (Value.float x).text
  | _ => return none

/-- The text of a value unless it is empty. -/
def filled? (v : Value) : Reading (Option String) := do
  let t ← text? v
  return t.filter (· ≠ "")

/-- The integer of a value that is one or spells one. -/
def integer? : Value → Option Int
  | .int n => some n
  | .str s => Number.integer? s
  | _ => none

/-- The truth value of a value that is one or spells one. -/
def truth? : Value → Option Bool
  | .bool b => some b
  | .str s =>
    let word := Text.lower (String.ofList (Text.strip s.toList))
    if word ∈ ["true", "yes", "1"] then some true
    else if word ∈ ["false", "no", "0"] then some false
    else none
  | _ => none

/-- The texts of some items, what is no text and no number being passed over. -/
def itemTexts : List Value → Reading (List String)
  | [] => return []
  | v :: vs => do
    let t ← text? v
    let ts ← itemTexts vs
    return t.toList ++ ts

/-- The texts of a list, or of a single text; octets are a list of numbers. -/
def texts (v : Value) : Reading (List String) :=
  match v.opened with
  | .str s => return [s]
  | .list items => itemTexts items
  | .octets bytes => return bytes.map fun b => Nat.repr b.toNat
  | _ => return []

/-- The entries of a map; anything else has none. -/
def entries (v : Value) : List (Value × Value) :=
  v.entries?.getD []

/-! ## §3. Reading -/

/-- The assembly that an entry describes. -/
def assembly (root : Path) (index : Nat) (given : Value) : Reading Assembly := do
  let es := entries given
  match ← filled? (Value.field es "path") with
  | none => throw (.missingPath index)
  | some path =>
    match ← texts (Value.field es "types") with
    | [] => return ⟨root.child path, ["*"]⟩
    | filters => return ⟨root.child path, filters⟩

def assembliesFrom (root : Path) (index : Nat) : List Value → Reading (List Assembly)
  | [] => return []
  | v :: vs => do
    let a ← assembly root index v
    let rest ← assembliesFrom root (index + 1) vs
    return a :: rest

def assembliesOf (root : Path) (given : Value) : Reading (List Assembly) :=
  match given.items? with
  | some items => assembliesFrom root 0 items
  | none => if given.isNull then return [] else throw .assembliesNotList

/-- The number of workers, which is positive where one is given. -/
def workersOf (given : Value) : Reading Nat :=
  match integer? given with
  | none => return 4
  | some n => if n < 1 then throw .badWorkers else return n.toNat

def styleOf (given : Value) : Reading EnumerableStyle := do
  let word ← filled? given
  match EnumerableStyle.ofName? (word.getD "function") with
  | some style => return style
  | none => throw .badStyle

/-- The settings that a map holds. -/
def ofEntries (root : Path) (es : List (Value × Value)) : Reading Settings := do
  let assemblies ← assembliesOf root (Value.field es "assemblies")
  let output ← filled? (Value.field es "output_dir")
  let templates ← filled? (Value.field es "templates_dir")
  let workers ← workersOf (Value.field es "workers")
  let style ← styleOf (Value.field es "enumerable_style")
  let shapes := entries (Value.field es "generic_shapes")
  let listShapes ← texts (Value.field shapes "list")
  let dictionaryShapes ← texts (Value.field shapes "dictionary")
  let flatten := (truth? (Value.field es "flatten_inheritance")).getD false
  return {
    root, assemblies, workers
    output := output.map root.child
    templates := templates.map root.child
    options := ⟨style, listShapes, dictionaryShapes, flatten⟩ }

/-- The settings that a value holds; an empty one counts as no settings at all. -/
def ofValue (root : Path) (fileName : String) (v : Value) : Reading Settings :=
  if v.truthy then
    match v.entries? with
    | some es => ofEntries root es
    | none => throw (.rootNotMap fileName)
  else ofEntries root []

/-- The settings that a file text holds. -/
def ofText (root : Path) (fileName text : String) :
    Except Abort (Except SettingsError Settings) := do
  if text.toList.all Text.isBlank then ofEntries root []
  else
    match ← Abort.yamlValue? text with
    | some v => ofValue root fileName v
    | none => return .error (.unparsable fileName)

/-- The settings file meant by a path: the path itself, or the file with the usual name in it
    where it is a directory. -/
def locate (tree : Tree) (path : Path) : Except Abort Path := do
  let path ← Abort.expandHome tree path
  if ← tree.isDirectory? path then tree.resolve (path.child fileName)
  else tree.resolve path

/-- Reads the settings meant by a path.  The outer error ends the program, the inner one is a
    fault of the settings. -/
def load (tree : Tree) (path : Path) : Except Abort (Except SettingsError Settings) := do
  let file ← locate tree path
  let root := file.parent
  if ← tree.exists? file then
    let text ← tree.read file
    ofText root file.name text
  else return .ok { root }

end Settings

end EmmyStubs
