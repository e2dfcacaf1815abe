import EmmyStubs.Command

/-! # The executable

    Takes in the files that a run may look at, runs the program on them as values, and brings
    the changes back to disk.  All decisions are made by `Command.run`. -/

namespace EmmyStubs.Disk

open EmmyStubs.Files

/-- The text of a place. -/
def placeText (at_ : Place) : String :=
  "/" ++ "/".intercalate at_

/-- What is at a place, and below it as far as `depth` allows; files that hold no text are left
    out. -/
partial def survey (depth : Nat) (at_ : Place) : IO (List (Place × Node)) := do
  let entry : IO.FS.DirEntry := ⟨placeText at_.dropLast, at_.getLast?.getD ""⟩
  if ← entry.path.isDir then
    match depth with
    | 0 => return [(at_, .directory)]
    | depth + 1 =>
      let below ← entry.path.readDir
      let found ← below.toList.mapM fun e => survey depth (at_ ++ [e.fileName])
      return (at_, .directory) :: found.flatten
  else
    try
      let text ← IO.FS.readFile entry.path
      return [(at_, .file text)]
    catch _ => return []

/-- The places above a place, itself left out. -/
def above (at_ : Place) : List Place :=
  ((List.range at_.length).drop 1).map at_.take

/-- Adds what is at a path, with everything that leads to it. -/
def look (depth : Nat) (tree : Tree) (path : Path) : IO Tree := do
  if Tree.hasNull path then return tree
  let at_ := (path.resolve ⟨.single, tree.cwd⟩).parts
  let roads ← (above at_).mapM (survey 0)
  let found ← survey depth at_
  return (roads.flatten ++ found).foldl (fun t (p, n) => t.set p n) tree

/-- The paths that some settings make a run look at, with the depth to which it does. -/
def relevant (s : Settings) : List (Nat × Path) :=
  (s.assemblies.map fun a => (0, a.path)) ++ (s.templates.toList.map fun p => (1, p))
    ++ [(64, s.outputDirectory)]

/-- Takes in the settings that the arguments name, and then what those lead to. -/
def takeIn (arguments : List String) (tree : Tree) : IO Tree := do
  match Command.Invocation.ofArguments arguments with
  | .error _ => return tree
  | .ok i =>
    let given := Path.ofString i.config
    let config := (Abort.expandHome tree given).toOption.getD given
    let paths := [config, config.child Settings.fileName]
      ++ (i.flags.logFile.toList.map Path.ofString)
    let tree ← paths.foldlM (look 0) tree
    let tree ← (i.flags.output.toList.map Path.ofString).foldlM (look 64) tree
    match Settings.load tree given with
    | .ok (.ok s) => (relevant s).foldlM (fun t (depth, p) => look depth t p) tree
    | _ => return tree

/-- The home directories of all users, and first of all the one of this process. -/
def homes : IO (List (String × Place)) := do
  let own := (← IO.getEnv "HOME").toList.map fun home => ("", home)
  let entry : IO.FS.DirEntry := ⟨"/etc", "passwd"⟩
  let table ← try IO.FS.readFile entry.path catch _ => pure ""
  let users := (table.splitOn "\n").filterMap fun line =>
    match line.splitOn ":" with
    | [name, _, _, _, _, home, _] => some (name, home)
    | _ => none
  return (own ++ users).map fun (name, home) => (name, (Path.ofString home).parts)

/-- Brings changes to disk. -/
def bringBack (changes : List (Place × Node)) : IO Unit := do
  for (at_, node) in changes.mergeSort fun a b => a.1.length ≤ b.1.length do
    match node with
    | .directory => IO.FS.createDirAll (placeText at_)
    | .file text => IO.FS.writeFile (placeText at_) text

end EmmyStubs.Disk

open EmmyStubs in
def main (arguments : List String) : IO UInt32 := do
  let cwd := (Files.Path.ofString (← IO.currentDir).toString).parts
  let tree ← Disk.look 0 ⟨cwd, [], ← Disk.homes⟩ (Files.Path.ofString ".")
  let tree ← Disk.takeIn arguments tree
  match Command.run Dump.load arguments tree with
  | .error e =>
    IO.eprintln e.message
    return 1
  | .ok o =>
    Disk.bringBack (Files.Tree.changes tree o.tree)
    IO.print o.output
    IO.eprint o.errors
    return o.exit.toUInt32
