import EmmyStubs.Command.Arguments
import EmmyStubs.Run.Generate

/-! # The program

    The arguments name a command and its settings; the command runs on the files, and ends with
    an exit code and two texts.  Messages go to the error text above a level, and all of them to
    a log file where one is named. -/

namespace EmmyStubs.Command

open EmmyStubs.Files

/-! ## §1. Outcomes -/

/-- How the program ended: its exit code, what it printed, and the files as they are then. -/
structure Outcome where
  exit : Nat
  output : String
  errors : String
  tree : Tree

/-- The least level of the messages shown; being verbose wins over being quiet. -/
def Flags.level (f : Flags) : Log.Level :=
  if f.verbose then .debug else if f.quiet then .warning else .info

/-- The path of the log file, where one is named. -/
def Flags.logPath (f : Flags) : Option Path :=
  f.logFile.map Path.ofString

/-- Makes the log file ready. -/
def openLog (f : Flags) (tree : Tree) : Except FileError Tree :=
  match f.logPath with
  | none => return tree
  | some path => do
    let tree ← tree.makeDirectories path.parent
    tree.append path ""

/-! ## §2. Commands -/

/-- Exit code, printed text and closing error text of a finished generation. -/
def reportText (strict : Bool) (r : Report) : Nat × String × String :=
  let head := "Generated " ++ Nat.repr r.files.length ++ " files for " ++ Nat.repr r.typeCount
    ++ " types\n"
  if !r.skipped.isEmpty then
    (1, head, "Skipped unreadable descriptor dumps: "
      ++ ", ".intercalate (r.skipped.map Path.toString) ++ "\n")
  else if !r.failures.isEmpty then
    let failed := Nat.repr r.failures.length ++ " types failed to translate\n"
    if strict then (2, head ++ failed, "Failing because --strict was given.\n")
    else (0, head ++ failed, "")
  else (0, head, "")

/-- The lines that list the types of every assembly. -/
def listingText (listing : List (String × List String)) : String :=
  String.join (listing.map fun (assembly, names) =>
    assembly ++ ":\n" ++ String.join (names.map fun n => "  " ++ n ++ "\n"))

/-- Ends a run with its messages in front of the closing error text. -/
def finish (f : Flags) (w : World) (exit : Nat) (output errors : String) : Outcome :=
  ⟨exit, output, Log.consoleText f.level w.session.log ++ errors, w.tree⟩

/-- A fault that is met at a path has an outcome; any other ends the program without one. -/
def runGenerate (load : Loader) (f : Flags) (s : Settings) (tree : Tree) :
    Except Abort Outcome :=
  if f.workers.any (· < 1) then
    return ⟨1, "", "--workers must be a positive integer\n", tree⟩
  else
    let output := (f.output.map Path.ofString).getD s.outputDirectory
    match (Run.generate load s output).outcome (World.start tree f.logPath) with
    | (.ok r, w) =>
      let (exit, text, errors) := reportText f.strict r
      return finish f w exit text errors
    | (.error e, w) =>
      match e.fileMessage? with
      | some text =>
        return finish f w 1 "" ("luastubgen generate failed: " ++ text
          ++ "\nRun with --verbose for more details.\n")
      | none => throw e

def runList (load : Loader) (f : Flags) (s : Settings) (tree : Tree) : Except Abort Outcome :=
  match (Run.listTypes load s).outcome (World.start tree f.logPath) with
  | (.ok listing, w) => return finish f w 0 (listingText listing) ""
  | (.error e, _) => throw e

/-- Carries out a command. -/
def invoke (load : Loader) (i : Invocation) (tree : Tree) : Except Abort Outcome := do
  let tree ← openLog i.flags tree
  match ← Settings.load tree (Path.ofString i.config) with
  | .error e => return ⟨1, "", "Invalid configuration: " ++ e.message ++ "\n", tree⟩
  | .ok s =>
    match i.name with
    | .generate => runGenerate load i.flags s tree
    | .list => runList load i.flags s tree

/-- Runs the program on its arguments. -/
def run (load : Loader) (arguments : List String) (tree : Tree) : Except Abort Outcome :=
  match Invocation.ofArguments arguments with
  | .ok i => invoke load i tree
  | .error .usage => return ⟨2, "", "usage", tree⟩
  | .error .help => return ⟨0, "usage", "", tree⟩

end EmmyStubs.Command
