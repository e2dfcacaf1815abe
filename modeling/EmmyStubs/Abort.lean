import EmmyStubs.Files.Tree
import EmmyStubs.Yaml

/-! # What ends the program early

    Faults that nothing in the program answers for: a file that cannot be used, a home
    directory that is not known, a scalar whose tag asks for something that its text does not
    spell, an integer with more decimal digits than are converted, and a text with half of a
    surrogate pair in it. -/

namespace EmmyStubs

open EmmyStubs.Files

inductive Abort where
  | file (e : FileError)
  | noHome
  | misspelled (m : Yaml.Misspelling)
  | excess (e : Number.Excess)
  | surrogate
  deriving DecidableEq, Repr

namespace Abort

def message : Abort → String
  | .file e => e.message
  | .noHome => "Could not determine home directory."
  | .misspelled m => m.message
  | .excess e => e.message
  | .surrogate => "surrogates not allowed"

/-- The message of a fault that was met at a path; other faults have none here. -/
def fileMessage? : Abort → Option String
  | .file (.met fault path) => some (FileError.met fault path).message
  | _ => none

instance : MonadLift (Except FileError) (Except Abort) :=
  ⟨Except.mapError .file⟩

/-- The value that a text spells, where the text is well-formed. -/
def yamlValue? (text : String) : Except Abort (Option Value) :=
  match Yaml.read text with
  | .ok v => return some v
  | .error .malformed => return none
  | .error (.misspelled m) => throw (.misspelled m)

/-- The value that a JSON text spells, where the text is well-formed. -/
def jsonValue? (text : String) : Except Abort (Option Value) :=
  match Json.read text with
  | .ok v => return some v
  | .error .malformed => return none
  | .error (.excess digits) => throw (.excess (.reading digits))
  | .error .surrogate => throw .surrogate

/-- A path with the home directory that it may begin with written out. -/
def expandHome (tree : Tree) (path : Path) : Except Abort Path :=
  match path.root, path.parts.map String.toList with
  | .relative, ('~' :: name) :: _ =>
    if name.contains '\x00' then throw (.file .nullCharacter)
    else
      match tree.homes.find? (·.1.toList == name) with
      | some (_, home) => return ⟨.single, home ++ path.parts.drop 1⟩
      | none => throw .noHome
  | _, _ => return path

end Abort

end EmmyStubs
