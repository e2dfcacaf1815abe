import EmmyStubs.Dump
import EmmyStubs.Session.Action
import EmmyStubs.Settings

/-! # Runs

    A run changes files and shares one session among all dumps that it reads.  Its messages go
    to a log file as they come, where there is one.  An abort ends it; what was written and
    reported before stays. -/

namespace EmmyStubs

open EmmyStubs.Files

/-! ## §1. Steps of a run -/

/-- What a run works on. -/
structure World where
  tree : Tree
  session : Session
  logFile : Option Path := none

def World.start (tree : Tree) (logFile : Option Path) : World :=
  ⟨tree, Session.start, logFile⟩

/-- Adds messages to the log file.  It was opened before the run, so it can be written. -/
def World.keep (w : World) (entries : List Log.Entry) : World :=
  match w.logFile with
  | none => w
  | some path =>
    match w.tree.append path (Log.fileText entries) with
    | .ok tree => { w with tree }
    | .error _ => w

/-- A step of a run: it may be aborted, and keeps the world that it reached. -/
abbrev Run (α : Type) : Type :=
  ExceptT Abort (StateM World) α

namespace Run

variable {α : Type}

/-- Performs an action on the session. -/
def perform (x : Action α) : Run α := do
  let w ← get
  let (a, session) := x.run w.session
  set (({ w with session } : World).keep (session.log.drop w.session.log.length))
  return a

/-- Reports a message. -/
def report (level : Log.Level) (source : Log.Source) (message : String) : Run Unit :=
  perform (Action.report level source message)

/-- The files as they are. -/
def files : Run Tree := do
  let w ← get
  return w.tree

/-- The value of a step that does not change the world. -/
def need (x : Except Abort α) : Run α :=
  match x with
  | .ok a => return a
  | .error e => throw e

/-- Changes the files, or fails. -/
def change (f : Tree → Except FileError Tree) : Run Unit := do
  let w ← get
  let tree ← need (f w.tree)
  set { w with tree }

/-- The outcome of a run from a world on. -/
def outcome (x : Run α) (w : World) : Except Abort α × World :=
  StateT.run (ExceptT.run x) w

end Run

/-! ## §2. Opening dumps -/

/-- How a dump is read. -/
abbrev Loader : Type :=
  Tree → Path → Except Abort (Except Dump.Error Dump)

namespace Run

/-- The dump of a configured assembly.  One that is missing or faulty is reported and
    skipped. -/
def openDump (load : Loader) (a : Settings.Assembly) : Run (Option Dump) := do
  let tree ← files
  if ← need (tree.exists? a.path) then
    match ← need (load tree a.path) with
    | .error e =>
      report .error .orchestrator ("Skipping " ++ a.path.toString ++ ": " ++ e.message)
      return none
    | .ok dump =>
      report .debug .loader dump.summary
      report .info .orchestrator
        ("Loaded assembly " ++ dump.name ++ " (" ++ Nat.repr dump.types.length ++ " types)")
      return some dump
  else
    report .warning .orchestrator ("Descriptor dump not found: " ++ a.path.toString)
    return none

end Run

end EmmyStubs
