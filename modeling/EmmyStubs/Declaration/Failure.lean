import EmmyStubs.Number.Limit
import EmmyStubs.Stub.Basic
import EmmyStubs.Text.Blank
import EmmyStubs.Text.Cut

/-! # Failed declarations

    A type that cannot be declared keeps its slot in its file: a comment line there names it
    and tells why, in one line of bounded length. -/

namespace EmmyStubs

/-! ## §1. Why a declaration fails -/

/-- What is wrong with an enumeration: its first member whose value is no integer, with that
    value, or a value with too many digits. -/
inductive DeclarationFault where
  | nonInteger (member : String) (value : Value)
  | excess
  deriving Repr

/-- A type that cannot be declared. -/
structure DeclarationError where
  identity : Identity
  fault : DeclarationFault
  deriving Repr

/-- The reason where something cannot be written. -/
def DeclarationFault.unwritable : String :=
  "ValueError: " ++ Number.Excess.writing.message

/-- The reason for a failure.  It shows the value that is no integer, which may be a list with
    an integer in it that has too many digits. -/
def DeclarationFault.reason : DeclarationFault → String
  | .nonInteger member value =>
    match value.shown? with
    | some shown => "enum member " ++ member ++ " has non-integer value " ++ shown
    | none => unwritable
  | .excess => unwritable

def DeclarationError.reason (e : DeclarationError) : String :=
  e.fault.reason

def DeclarationError.message (e : DeclarationError) : String :=
  e.identity ++ ": " ++ e.reason

/-- A type whose declaration was replaced by a note. -/
structure Failure where
  identity : Identity
  reason : String
  assembly : Option String
  deriving DecidableEq, Repr

/-! ## §2. Notes -/

namespace Failure

open EmmyStubs.Text

/-- The number of characters of a reason that are kept. -/
def reasonLimit : Nat := 200

/-- A reason in one line: its words with single spaces between them, cut behind the limit. -/
def cleanReason (reason : List Char) : List Char :=
  let line := [' '].intercalate (words reason)
  if line.length ≤ reasonLimit then line else line.take reasonLimit ++ ['…']

/-- The comment that stands for a failed declaration. -/
def note (identity : Identity) (reason : Option String) : String :=
  let cleaned := String.ofList (cleanReason (reason.getD "").toList)
  "---Translation failed for " ++ identity ++ ": "
    ++ (if cleaned = "" then "unknown error" else cleaned) ++ "\n"

/-- The note in the slot of a type. -/
def rendered (identity : Identity) (space : Option String) (reason : Option String) :
    Stub.Rendered :=
  ⟨identity, identity, space, note identity reason, true⟩

end Failure

end EmmyStubs
