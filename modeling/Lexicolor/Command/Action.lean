import Lexicolor.Command.Notice
import Lexicolor.Command.Report
import Lexicolor.Json.Reader
import Lexicolor.Text.Utf8
import Lexicolor.Workspace.Layout

/-!
# Actions on a workspace

An action reads and writes files of a workspace, prints reports and gives
notices, and may fail. What it did before a failure stays done.
-/

namespace Lexicolor

/-- A workspace, and what was printed and noticed so far, in order. -/
structure Session where
  workspace : Workspace
  reports : List Report := []
  notices : List Notice := []

abbrev Action (α : Type) := ExceptT Failure (StateM Session) α

namespace Action

variable {α : Type}

def fail (failure : Failure) : Action α := throw failure

def notice (n : Notice) : Action Unit :=
  modify fun s => { s with notices := s.notices ++ [n] }

def report (r : Report) : Action Unit :=
  modify fun s => { s with reports := s.reports ++ [r] }

/-- A failure of the action happens within the context. -/
def within (context : String) (action : Action α) : Action α := fun s =>
  match action s with
  | (.ok a, s) => (.ok a, s)
  | (.error failure, s) => (.error (failure.within context), s)

/-- The value of the action or its failure; this action itself does not fail. -/
def attempt (action : Action α) : Action (Except Failure α) := fun s =>
  match action s with
  | (result, s) => (.ok result, s)

/-- A value, or a failure with its cause. -/
def orFail {ε : Type} (cause : ε → Cause) : Except ε α → Action α
  | .ok a => pure a
  | .error e => fail (.of (cause e))

def pathExists (path : String) : Action Bool := do
  return (← get).workspace.pathExists path

def readBytes (path : String) : Action ByteArray := do
  within ("Reading " ++ path) (orFail .os ((← get).workspace.read path))

/-- The text of a file. -/
def readText (path : String) : Action String := do
  let bytes ← readBytes path
  match String.fromUTF8? bytes with
  | some text => return text
  | none => fail ⟨["Reading " ++ path], .invalidUtf8⟩

/-- The text of a C++ source, which need not be well-formed UTF-8. -/
def readSource (path : String) : Action String := do
  if ← pathExists path then
    let bytes ← readBytes path
    notice (.sourceRead path bytes.size)
    return Text.decodeLossy bytes
  else fail (.of (.missing path))

/-- The value of a JSON file. -/
def readJson (dialect : Json.Dialect) (decoder : Json.Decoder α) (path : String) : Action α := do
  let text ← readText path
  within ("Parsing " ++ path) (orFail .json (decoder.read dialect text))

/-- The value of a JSON file, or `empty` if there is no file. -/
def readTable (decoder : Json.Decoder α) (empty : α) (path : String) : Action α := do
  if ← pathExists path then readJson .standard decoder path
  else
    notice (.emptyTable path)
    return empty

/-- Writes a file, creating the directories above it. -/
def write (path text : String) : Action Unit := do
  let (workspace, result) := (← get).workspace.writeBelow path text.toUTF8
  modify fun s => { s with workspace }
  within ("Writing " ++ path) (orFail .os result)

end Action

end Lexicolor
