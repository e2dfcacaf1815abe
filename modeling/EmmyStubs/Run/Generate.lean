import EmmyStubs.Output
import EmmyStubs.Run.World
import EmmyStubs.Selection.Filter
import EmmyStubs.Declaration.Group

/-! # Generating stubs

    The dumps are read in the order of the settings; the types selected from each are
    declared and written namespace by namespace before the next dump is opened.  The index
    comes last. -/

namespace EmmyStubs

open EmmyStubs.Files

/-! ## §1. Reports -/

/-- What a run did: the files in the order of writing, the types that failed, the dumps that
    were skipped, and the number of types. -/
structure Report where
  files : List Path := []
  failures : List Failure := []
  skipped : List Path := []
  typeCount : Nat := 0
  deriving Repr

namespace Report

/-- Nothing failed and nothing was skipped. -/
def ok (r : Report) : Bool :=
  r.failures.isEmpty && r.skipped.isEmpty

/-- One report behind another. -/
def append (r s : Report) : Report :=
  ⟨r.files ++ s.files, r.failures ++ s.failures, r.skipped ++ s.skipped,
    r.typeCount + s.typeCount⟩

def summary (r : Report) : String :=
  "Generated " ++ Nat.repr r.files.length ++ " files for " ++ Nat.repr r.typeCount ++ " types ("
    ++ Nat.repr r.failures.length ++ " failed)"

end Report

/-- The numbers of a cache between braces. -/
def CacheStats.text (s : CacheStats) : String :=
  "\x7b'entries': " ++ Nat.repr s.entries ++ ", 'hits': " ++ Nat.repr s.hits ++ ", 'misses': "
    ++ Nat.repr s.misses ++ "\x7d"

/-- How far the caches of a session were used. -/
def Session.usage (s : Session) : String :=
  "Cache usage: names=" ++ s.names.stats.text ++ " mapping=" ++ s.mappings.stats.text

namespace Run

/-! ## §2. Writing -/

/-- Writes a file, with the directories that lead to it. -/
def writeFile (path : Path) (text : String) : Run Unit := do
  report .info .writer ("Generating: " ++ path.toString)
  change fun tree => tree.makeDirectories path.parent
  change fun tree => tree.write path text

/-- Writes the file of a group. -/
def writeGroup (s : Settings) (output : Path) (assembly : String) (r : GroupResult) :
    Run Path := do
  let template := Output.templateText (← files) s.templates Output.namespaceTemplateName
    Output.namespaceTemplate
  let path := Output.namespacePath output assembly r.space
  writeFile path (Output.namespaceText template assembly r.space r.declarations)
  return path

def writeGroups (s : Settings) (output : Path) (assembly : String) :
    List GroupResult → Run (List Path)
  | [] => return []
  | r :: rs => do
    let path ← writeGroup s output assembly r
    let paths ← writeGroups s output assembly rs
    return path :: paths

/-- Writes the index of some namespaces. -/
def writeIndex (s : Settings) (output : Path) (spaces : List (Option String)) : Run Path := do
  let template := Output.templateText (← files) s.templates Output.indexTemplateName
    Output.indexTemplate
  let path := Output.indexPath output
  writeFile path (Output.indexText template spaces)
  return path

/-! ## §3. Assemblies -/

/-- Declares and writes the selected types of a dump; the namespaces of these types come with
    the report. -/
def generateDump (s : Settings) (output : Path) (filters : List String) (dump : Dump) :
    Run (Report × List (Option String)) := do
  let selected ← perform (Selection.select dump.graph dump.types filters)
  let results ← perform
    (renderAll dump.graph s.options (some dump.name) (groupBySpace selected))
  let paths ← writeGroups s output dump.name results
  let failures := results.flatMap (·.failures)
  return ({ files := paths, failures, typeCount := selected.length }, selected.map (·.space))

/-- All assemblies in turn. -/
def generateDumps (load : Loader) (s : Settings) (output : Path) :
    List Settings.Assembly → Run (Report × List (Option String))
  | [] => return ({}, [])
  | a :: rest => do
    let (report, spaces) ← match ← openDump load a with
      | some dump => generateDump s output a.filters dump
      | none => pure ({ skipped := [a.path] }, [])
    let (report', spaces') ← generateDumps load s output rest
    return (report.append report', spaces ++ spaces')

/-- Generates the stubs of all assemblies, and their index. -/
def generate (load : Loader) (s : Settings) (output : Path) : Run Report := do
  report .info .orchestrator ("Generating stubs into " ++ output.toString)
  let (part, spaces) ← generateDumps load s output s.assemblies
  let path ← writeIndex s output spaces
  let whole := part.append { files := [path] }
  report .info .orchestrator whole.summary
  let w ← get
  report .debug .orchestrator w.session.usage
  return whole

/-! ## §4. Listing -/

/-- Sets the names of an assembly; a name that is there keeps its place. -/
def setListing (name : String) (types : List String) :
    List (String × List String) → List (String × List String)
  | [] => [(name, types)]
  | (n, ts) :: rest =>
    if n = name then (n, types) :: rest else (n, ts) :: setListing name types rest

/-- The names of all types of a list. -/
def resolveTypes (g : Graph) : List Descriptor → Action (List String)
  | [] => return []
  | d :: ds => do
    let name ← resolve g d
    let names ← resolveTypes g ds
    return name :: names

/-- The names of the selected types of every assembly. -/
def listDumps (load : Loader) (listing : List (String × List String)) :
    List Settings.Assembly → Run (List (String × List String))
  | [] => return listing
  | a :: rest => do
    match ← openDump load a with
    | none => listDumps load listing rest
    | some dump =>
      let selected ← perform (Selection.select dump.graph dump.types a.filters)
      let names ← perform (resolveTypes dump.graph selected)
      listDumps load (setListing dump.name names listing) rest

def listTypes (load : Loader) (s : Settings) : Run (List (String × List String)) :=
  listDumps load [] s.assemblies

end Run

end EmmyStubs
