import EmmyStubs.Mapping.Name
import EmmyStubs.Selection.Glob

/-! # Selecting types

    A filter is a pattern with stars, or else the identity or the qualified name of a type.  A
    type is selected when it may be declared at all and some filter hits it. -/

namespace EmmyStubs.Selection

/-! ## §1. Filters -/

/-- The filter that hits every type. -/
def everything : String := "*"

/-- The filters, each at its first occurrence. -/
def distinctFilters : List String → List String
  | [] => []
  | f :: fs => f :: (distinctFilters fs).filter (· ≠ f)

/-- The filters that occur more than once. -/
def duplicates (filters : List String) : List String :=
  (distinctFilters filters).filter fun f => 1 < filters.count f

/-- Reports every filter of a list on a line of its own. -/
def reportEach : List String → Action Unit
  | [] => return ()
  | f :: fs => do
    Action.report .warning .selection ("    \"" ++ f ++ "\"")
    reportEach fs

/-- The filters without repetitions, which are reported. -/
def normaliseFilters (filters : List String) : Action (List String) := do
  let repeated := duplicates filters
  if !repeated.isEmpty then
    Action.report .warning .selection "Detected duplicate type filters:"
    reportEach repeated
    Action.report .warning .selection "Removed duplicates!"
  return distinctFilters filters

/-- Whether a filter hits a type with a qualified name. -/
def hits (identity : Identity) (qualifiedName filter : String) : Bool :=
  if filter.toList.contains '*' then isMatch (some qualifiedName) (some filter)
  else filter == identity || filter == qualifiedName

/-! ## §2. Types -/

/-- Whether a type may be declared: it is described, of a kind that is declared, not generic,
    and neither it nor a type around it was made by a compiler. -/
def isCandidate (g : Graph) (d : Descriptor) : Bool :=
  d.kind.isDeclarable && !d.isExternal && !d.isGeneric && !d.isSpecialName && !d.isGeneratedCode
    && !g.isCompilerGenerated d

/-- The types that some filter hits by their qualified names. -/
def hitTypes (g : Graph) (filters : List String) : List Descriptor → Action (List Descriptor)
  | [] => return []
  | d :: ds => do
    let name ← resolve g d
    let rest ← hitTypes g filters ds
    return if filters.any (hits d.identity name) then d :: rest else rest

/-- The candidates that the filters select, in order.  The filter for everything needs no
    names. -/
def select (g : Graph) (types : List Descriptor) (filters : List String) :
    Action (List Descriptor) := do
  let candidates := types.filter (isCandidate g)
  let active ← normaliseFilters filters
  if active.contains everything then return candidates
  let selected ← hitTypes g active candidates
  Action.report .debug .selection
    ("Selected " ++ Nat.repr selected.length ++ " of " ++ Nat.repr candidates.length
      ++ " candidate types")
  return selected

end EmmyStubs.Selection
