import Lexicolor.Json.Token
import Lexicolor.Problem
import Lexicolor.Workspace.Files

/-!
# Failures of commands

A failure has a cause and tells, from the outside in, what was being done.
-/

namespace Lexicolor

inductive Cause where
  | os (e : OsError)
  /-- A file that should be text is not. -/
  | invalidUtf8
  | json (f : Json.Fault)
  | problem (p : Problem)
  /-- A source file is not there. -/
  | missing (path : String)
  deriving DecidableEq

/-- The text of a cause; `wording` gives that of a fault in a JSON text. -/
def Cause.message (wording : Json.Fault → String) : Cause → String
  | .os e => e.message
  | .invalidUtf8 => "stream did not contain valid UTF-8"
  | .json f => wording f
  | .problem p => p.message
  | .missing path => path ++ " not found"

structure Failure where
  /-- What was being done, outermost first. -/
  contexts : List String
  cause : Cause
  deriving DecidableEq

namespace Failure

def of (cause : Cause) : Failure := ⟨[], cause⟩

def within (context : String) (failure : Failure) : Failure :=
  { failure with contexts := context :: failure.contexts }

/-- The texts of a failure from the outside in; the last one is the cause. -/
def chain (wording : Json.Fault → String) (failure : Failure) : List String :=
  failure.contexts ++ [failure.cause.message wording]

/-- The chain in one line. -/
def line (wording : Json.Fault → String) (failure : Failure) : String :=
  ": ".intercalate (failure.chain wording)

/-- A text with the lines after the first one indented. -/
def indented (first later text : String) : String :=
  first ++ String.ofList (text.toList.flatMap fun c =>
    if c = '\n' then c :: later.toList else [c])

/-- What the program prints on a failure: the outermost text, and the texts below it, which are
numbered unless there is only one. -/
def report (wording : Json.Fault → String) (failure : Failure) : String :=
  match failure.chain wording with
  | [] => ""
  | [outer] => "Error: " ++ outer
  | [outer, cause] =>
      "Error: " ++ outer ++ "\n\nCaused by:\n" ++ indented "    " "    " cause
  | outer :: causes =>
      "Error: " ++ outer ++ "\n\nCaused by:\n" ++ "\n".intercalate
        (causes.zipIdx.map fun (cause, i) =>
          let number := toString i
          let padding := String.ofList (List.replicate (5 - number.length) ' ')
          indented (padding ++ number ++ ": ") "       " cause)

end Failure

end Lexicolor
