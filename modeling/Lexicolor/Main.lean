import Lexicolor.CommandLine

/-!
# The program

Reads the files that the layout names into a workspace, runs the command on it,
and writes back the files that changed.
-/

namespace Lexicolor.Main

/-- What is at a path of the file system, unless there is nothing. -/
def entryAt (path : String) : IO (Option Entry) := do
  match ← (IO.FS.readBinFile path).toBaseIO with
  | .ok bytes => return some (.file bytes)
  | .error (.inappropriateType ..) => return some .directory
  | .error _ => return none

/-- The paths that end at the pieces of a path, shortest first. -/
def stages (path : String) : List String :=
  let pieces := Text.splitOn '/' path.toList
  ((List.range pieces.length).map fun n =>
    String.ofList (Text.join ['/'] (pieces.take (n + 1)))).filter fun stage => stage ≠ ""

/-- The workspace with what is at a path and at the directories on the way. -/
def capture (workspace : Workspace) (path : String) : IO Workspace :=
  (stages path).foldlM (fun workspace stage =>
    match workspace.locate stage with
    | .error _ => return workspace
    | .ok location =>
        if (workspace.entry? location).isSome then return workspace
        else do
          match ← entryAt stage with
          | some entry => return workspace.set location entry
          | none => return workspace)
    workspace

/-- The paths that a command may touch. -/
def pathsOf (invocation : Invocation) : List String :=
  match invocation.command with
  | some (.tokens file _) => file :: invocation.layout.files
  | _ => invocation.layout.files

def commit (changes : List (Location × ByteArray)) : IO Unit :=
  changes.forM fun (location, bytes) => do
    let directory := location.up.text
    if directory ≠ "" then IO.FS.createDirAll directory
    IO.FS.writeBinFile location.text bytes

def run (invocation : Invocation) : IO UInt32 := do
  let workspace ← (pathsOf invocation).foldlM capture .empty
  let (result, session) := invocation.perform workspace
  commit (workspace.changes session.workspace)
  IO.print (session.output PatternError.message)
  let filter := ((← IO.getEnv "LEXICOLOR_LOG").bind LogFilter.read?).getD
    (.default invocation.verbose)
  (session.log filter Json.Fault.message).forM IO.eprintln
  match result with
  | .ok _ => return 0
  | .error failure =>
      IO.eprintln (failure.report Json.Fault.message)
      return 1

end Lexicolor.Main

def main (args : List String) : IO UInt32 := do
  match Lexicolor.CommandLine.read args with
  | .ok invocation => Lexicolor.Main.run invocation
  | .error e =>
      if e.exitCode = 0 then IO.print e.message else IO.eprint e.message
      return e.exitCode.toUInt32
