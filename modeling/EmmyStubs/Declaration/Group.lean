import EmmyStubs.Declaration.Basic

/-! # Groups of types

    Types are declared namespace by namespace.  A type that fails is reported and leaves a
    note in its slot, so a group has one declaration for every type. -/

namespace EmmyStubs

/-! ## §1. Grouping -/

/-- Some types of one namespace. -/
structure Group where
  space : Option String
  types : List Descriptor

/-- Puts a type behind those of its namespace; a new namespace goes last. -/
def Group.insert (space : Option String) (d : Descriptor) : List Group → List Group
  | [] => [⟨space, [d]⟩]
  | grp :: rest =>
    if grp.space = space then ⟨space, grp.types ++ [d]⟩ :: rest
    else grp :: Group.insert space d rest

/-- The types of each namespace, the namespaces in the order in which they first occur.  The
    empty namespace is none. -/
def groupBySpace (ds : List Descriptor) : List Group :=
  ds.foldl (fun groups d => Group.insert d.space? d groups) []

/-! ## §2. Texts -/

/-- The declarations of a group, and what failed. -/
structure GroupResult where
  space : Option String
  declarations : List Stub.Rendered
  failures : List Failure
  deriving DecidableEq, Repr

/-- The declarations and failures of some types in turn. -/
def renderTypes (g : Graph) (o : Options) (assembly : Option String) :
    List Descriptor → Action (List Stub.Rendered × List Failure)
  | [] => return ([], [])
  | d :: ds => do
    match ← renderType g o d with
    | .ok r =>
      let (rs, fs) ← renderTypes g o assembly ds
      return (r :: rs, fs)
    | .error e =>
      Action.report .warning .context
        ("Translation failed for " ++ e.identity ++ ": " ++ e.reason)
      let (rs, fs) ← renderTypes g o assembly ds
      return (Failure.rendered e.identity d.space (some e.reason) :: rs,
        ⟨e.identity, e.reason, assembly⟩ :: fs)

def renderGroup (g : Graph) (o : Options) (assembly : Option String) (grp : Group) :
    Action GroupResult := do
  let (declarations, failures) ← renderTypes g o assembly grp.types
  return ⟨grp.space, declarations, failures⟩

/-- All groups, one after the other. -/
def renderAll (g : Graph) (o : Options) (assembly : Option String) :
    List Group → Action (List GroupResult)
  | [] => return []
  | grp :: rest => do
    let r ← renderGroup g o assembly grp
    let rs ← renderAll g o assembly rest
    return r :: rs

end EmmyStubs
