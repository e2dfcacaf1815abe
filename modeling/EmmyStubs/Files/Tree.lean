import EmmyStubs.Files.Path
import EmmyStubs.Text.Quoted

/-! # A tree of files

    The files a run may read and write, as a value: a table from places to directories and
    file texts, the working directory, and the home directories.  A path is followed part by
    part; every part but the last has to name a directory, and `..` goes up.  §3 has the
    operations, each of which fails with the fault it met and the path it was asked for. -/

namespace EmmyStubs.Files

/-! ## §1. Faults -/

inductive Fault where
  | missing
  | present
  | notDirectory
  | isDirectory
  | nameTooLong
  deriving DecidableEq, Repr

def Fault.number : Fault → Nat
  | .missing => 2
  | .present => 17
  | .notDirectory => 20
  | .isDirectory => 21
  | .nameTooLong => 36

def Fault.text : Fault → String
  | .missing => "No such file or directory"
  | .present => "File exists"
  | .notDirectory => "Not a directory"
  | .isDirectory => "Is a directory"
  | .nameTooLong => "File name too long"

/-- Why an operation failed: what was met at a path, or that the path holds a null character
    and so means nothing. -/
inductive FileError where
  | met (fault : Fault) (path : Path)
  | nullCharacter
  deriving DecidableEq, Repr

/-- The text of a file error. -/
def FileError.message : FileError → String
  | .met fault path =>
    "[Errno " ++ Nat.repr fault.number ++ "] " ++ fault.text ++ ": "
      ++ Text.Quoted.encode path.toString
  | .nullCharacter => "embedded null byte"

/-! ## §2. Places -/

/-- A place, as the names that lead to it from the root. -/
abbrev Place := List String

inductive Node where
  | directory
  | file (text : String)
  deriving DecidableEq, Repr

/-- A table of places; the root is a directory without being listed.  The home directory that
    belongs to no name is that of whoever runs the program. -/
structure Tree where
  cwd : Place
  nodes : List (Place × Node)
  homes : List (String × Place) := []

namespace Tree

/-- What is at a place. -/
def node? (t : Tree) (at_ : Place) : Option Node :=
  if at_ = [] then some .directory else (t.nodes.find? (·.1 == at_)).map (·.2)

/-- Puts a node at a place. -/
def set (t : Tree) (at_ : Place) (n : Node) : Tree :=
  { t with nodes := (at_, n) :: t.nodes.filter (·.1 != at_) }

/-- One part further from a place, which has to be a directory. -/
def step (t : Tree) (at_ : Place) (part : String) : Except Fault Place :=
  match t.node? at_ with
  | none => .error .missing
  | some (.file _) => .error .notDirectory
  | some .directory =>
    if part = ".." then .ok at_.dropLast
    else if 255 < part.utf8ByteSize then .error .nameTooLong
    else .ok (at_ ++ [part])

/-- The most octets that the text of a path may have. -/
def longest : Nat := 4095

/-- Whether a path holds a null character. -/
def hasNull (p : Path) : Bool :=
  p.parts.any (·.toList.contains '\x00')

/-- The place a path leads to; whether something is there is not asked. -/
def locate (t : Tree) (p : Path) : Except FileError Place :=
  if hasNull p then throw .nullCharacter
  else if longest < p.toString.utf8ByteSize then throw (.met .nameTooLong p)
  else
    match p.parts.foldlM (step t) (if p.root = .relative then t.cwd else []) with
    | .ok at_ => return at_
    | .error fault => throw (.met fault p)

/-- What a path leads to. -/
def find (t : Tree) (p : Path) : Except FileError (Place × Node) := do
  let at_ ← t.locate p
  match t.node? at_ with
  | some n => return (at_, n)
  | none => throw (.met .missing p)

/-- What is in a tree and was not there, or not like that, in an older one. -/
def changes (old new : Tree) : List (Place × Node) :=
  new.nodes.filter fun (at_, n) => old.node? at_ != some n

/-! ## §3. Operations -/

/-- Whether something fitting is where a path leads.  Nothing is behind a file or a null
    character, and nothing is not an error. -/
def holds? (t : Tree) (p : Path) (fits : Node → Bool) : Except FileError Bool :=
  match t.find p with
  | .ok (_, n) => return fits n
  | .error (.met .nameTooLong q) => throw (.met .nameTooLong q)
  | .error _ => return false

def exists? (t : Tree) (p : Path) : Except FileError Bool :=
  t.holds? p fun _ => true

def isDirectory? (t : Tree) (p : Path) : Except FileError Bool :=
  t.holds? p (· == .directory)

/-- The absolute path that a path means, free of `..`. -/
def resolve (t : Tree) (p : Path) : Except FileError Path :=
  if hasNull p then throw .nullCharacter else return p.resolve ⟨.single, t.cwd⟩

/-- A text with every form of line end written as a line feed. -/
def unifyLines : List Char → List Char
  | '\r' :: '\n' :: rest => '\n' :: unifyLines rest
  | '\r' :: rest => '\n' :: unifyLines rest
  | c :: rest => c :: unifyLines rest
  | [] => []

/-- The text of a file. -/
def read (t : Tree) (p : Path) : Except FileError String := do
  match ← t.find p with
  | (_, .file s) => return String.ofList (unifyLines s.toList)
  | (_, .directory) => throw (.met .isDirectory p)

/-- Writes a file, new or in place of an old one. -/
def write (t : Tree) (p : Path) (text : String) : Except FileError Tree := do
  let at_ ← t.locate p
  match t.node? at_ with
  | some .directory => throw (.met .isDirectory p)
  | _ => return t.set at_ (.file text)

/-- Writes behind what a file holds; a missing file counts as empty. -/
def append (t : Tree) (p : Path) (text : String) : Except FileError Tree := do
  let at_ ← t.locate p
  match t.node? at_ with
  | some .directory => throw (.met .isDirectory p)
  | some (.file old) => return t.set at_ (.file (old ++ text))
  | none => return t.set at_ (.file text)

/-- Makes one directory where nothing is. -/
def makeDirectory (t : Tree) (p : Path) : Except FileError Tree := do
  let at_ ← t.locate p
  match t.node? at_ with
  | some _ => throw (.met .present p)
  | none => return t.set at_ .directory

/-- Makes one directory unless it is there. -/
def ensureDirectory (t : Tree) (p : Path) : Except FileError Tree :=
  match t.makeDirectory p with
  | .ok t => return t
  | .error .nullCharacter => throw .nullCharacter
  | .error (.met .missing q) => throw (.met .missing q)
  | .error e => do if ← t.isDirectory? p then return t else throw e

/-- Makes a directory with all that lead to it, at most `fuel` of them. -/
def makePath : Nat → Tree → Path → Except FileError Tree
  | 0, t, p => t.ensureDirectory p
  | fuel + 1, t, p =>
    match t.ensureDirectory p with
    | .error (.met .missing q) =>
      if p.parts = [] then throw (.met .missing q)
      else do
        let t ← makePath fuel t p.parent
        t.ensureDirectory p
    | r => r

/-- Makes a directory with all that lead to it, unless it is there. -/
def makeDirectories (t : Tree) (p : Path) : Except FileError Tree :=
  makePath p.parts.length t p

end Tree

end EmmyStubs.Files
