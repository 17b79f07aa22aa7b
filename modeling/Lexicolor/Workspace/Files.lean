import Lexicolor.SortedTable
import Lexicolor.Table
import Lexicolor.Text.Search
import Lexicolor.Text.Utf8
import Lexicolor.Workspace.Path

/-!
# Files of a workspace

A workspace maps locations to files and directories. A path leads to a location
through directories that exist; the working directory, the directories above it
and the root always exist.
-/

namespace Lexicolor

/-- Where locations start: at the working directory or so many levels above it, or at the root. -/
inductive Base where
  | above (levels : Nat)
  | root
  deriving DecidableEq

structure Location where
  base : Base
  names : List String
  deriving DecidableEq

namespace Location

def here : Location := ⟨.above 0, []⟩

def child (l : Location) (name : String) : Location := { l with names := l.names ++ [name] }

/-- The location one level up; the root is above itself. -/
def up (l : Location) : Location :=
  match l.names, l.base with
  | [], .above levels => ⟨.above (levels + 1), []⟩
  | [], .root => l
  | _, _ => { l with names := l.names.dropLast }

/-- The location itself or one below it. -/
def contains (l other : Location) : Bool := l.base = other.base && l.names.isPrefixOf other.names

/-- The path from the working directory to the location. -/
def text (l : Location) : String :=
  match l.base with
  | .above levels => "/".intercalate (List.replicate levels ".." ++ l.names)
  | .root => "/" ++ "/".intercalate l.names

end Location

inductive Entry where
  | file (bytes : ByteArray)
  | directory

/-- The entry is a file of just these bytes. -/
def Entry.holds (bytes : ByteArray) : Entry → Bool
  | .file found => found.data == bytes.data
  | .directory => false

/-- What the operating system may report. -/
inductive OsError where
  | notFound
  | alreadyExists
  | notDirectory
  | isDirectory
  | nameTooLong
  /-- A path with the character that ends paths. -/
  | nulInPath
  deriving DecidableEq, Repr

def OsError.message : OsError → String
  | .notFound => "No such file or directory (os error 2)"
  | .alreadyExists => "File exists (os error 17)"
  | .notDirectory => "Not a directory (os error 20)"
  | .isDirectory => "Is a directory (os error 21)"
  | .nameTooLong => "File name too long (os error 36)"
  | .nulInPath => "file name contained an unexpected NUL byte"

structure Workspace where
  entries : Table Location Entry

namespace Workspace

def empty : Workspace := ⟨.empty⟩

def entry? (w : Workspace) (l : Location) : Option Entry :=
  if l.names = [] then some .directory else w.entries.get? l

/-- The most bytes of a name in a directory. -/
def maxName : Nat := 255

/-- The most bytes of a path. -/
def maxPath : Nat := 4095

/-- One step along a path, from a directory. -/
def step (w : Workspace) (l : Location) (piece : List Char) : Except OsError Location :=
  match w.entry? l with
  | none => .error .notFound
  | some (.file _) => .error .notDirectory
  | some .directory =>
      if piece = [] ∨ piece = ['.'] then .ok l
      else if piece = ['.', '.'] then .ok l.up
      else if maxName < Text.byteLength piece then .error .nameTooLong
      else .ok (l.child (String.ofList piece))

/-- The location that a path leads to, whether there is something or not. -/
def locate (w : Workspace) (path : String) : Except OsError Location :=
  let cs := path.toList
  if cs = [] then .error .notFound
  else if '\x00' ∈ cs then .error .nulInPath
  else if maxPath < Text.byteLength cs then .error .nameTooLong
  else
    let start : Location := if cs.head? = some '/' then ⟨.root, []⟩ else .here
    (Text.splitOn '/' cs).foldlM w.step start

/-- What a path leads to. -/
def find (w : Workspace) (path : String) : Except OsError (Location × Entry) := do
  let l ← w.locate path
  match w.entry? l with
  | some entry => return (l, entry)
  | none => .error .notFound

def pathExists (w : Workspace) (path : String) : Bool := (w.find path).isOk

def isDirectory (w : Workspace) (path : String) : Bool :=
  match w.find path with
  | .ok (_, .directory) => true
  | _ => false

/-- The bytes of a file. -/
def read (w : Workspace) (path : String) : Except OsError ByteArray := do
  match ← w.find path with
  | (_, .file bytes) => return bytes
  | (_, .directory) => .error .isDirectory

def set (w : Workspace) (l : Location) (entry : Entry) : Workspace := ⟨w.entries.set l entry⟩

/-- Creates a directory where nothing is yet. -/
def makeDirectory (w : Workspace) (path : String) : Except OsError Workspace := do
  let l ← w.locate path
  match w.entry? l with
  | some _ => .error .alreadyExists
  | none => return w.set l .directory

/-- Creates a directory and the directories above it that are missing. What could be created stays
also when a later step fails. -/
def makeDirectories (w : Workspace) (path : List Char) : Workspace × Except OsError Unit :=
  if path = [] then (w, .ok ())
  else
    let name := String.ofList path
    match w.makeDirectory name with
    | .ok w => (w, .ok ())
    | .error .notFound =>
        match _h : Path.parent? path with
        | none => (w, .error .notFound)
        | some parent =>
            let (w, above) := w.makeDirectories parent
            match above with
            | .error e => (w, .error e)
            | .ok () => match w.makeDirectory name with
              | .ok w => (w, .ok ())
              -- a path that ends in a dot is there once the directory above it is
              | .error e => (w, if w.isDirectory name then .ok () else .error e)
    | .error e => (w, if w.isDirectory name then .ok () else .error e)
termination_by path.length
decreasing_by exact Path.length_parent?_lt _h

/-- Writes a file whose directory exists. -/
def write (w : Workspace) (path : String) (bytes : ByteArray) : Except OsError Workspace := do
  let l ← w.locate path
  match w.entry? l with
  | some .directory => .error .isDirectory
  | _ => return w.set l (.file bytes)

/-- Writes a file after the directories above it are created. -/
def writeBelow (w : Workspace) (path : String) (bytes : ByteArray) :
    Workspace × Except OsError Unit :=
  let parent := (Path.parent? path.toList).getD []
  let (w, above) := w.makeDirectories parent
  match above with
  | .error e => (w, .error e)
  | .ok () => match w.write path bytes with
    | .ok w => (w, .ok ())
    | .error e => (w, .error e)

/-- Removes what a path leads to, with all below it. -/
def remove (w : Workspace) (path : String) : Workspace :=
  match w.locate path with
  | .ok l => ⟨w.entries.filter fun other _ => !l.contains other⟩
  | .error _ => w

/-- The files of `new` that `old` does not have, with their paths in ascending order. -/
def changes (old new : Workspace) : List (Location × ByteArray) :=
  let changed := new.entries.entries.filterMap fun (l, entry) =>
    match entry with
    | .file bytes =>
        if (old.entries.get? l).any (·.holds bytes) then none else some (l.text, (l, bytes))
    | .directory => none
  (SortedTable.ofList changed).values

end Workspace

end Lexicolor
