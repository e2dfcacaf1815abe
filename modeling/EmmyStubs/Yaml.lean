import EmmyStubs.Yaml.Cell

/-! # Reading YAML

    The value of a whole text, which holds one document or none. -/

namespace EmmyStubs.Yaml

/-- The value that a text spells; one without a document is null. -/
def read (text : String) : Except Fault Value := do
  match tokens? text with
  | none => throw .malformed
  | some tokens =>
    match ← document tokens with
    | some d => d.value
    | none => return .null

end EmmyStubs.Yaml
