import Lexicolor.Command.Failure
import Lexicolor.Text.Blank
import Lexicolor.Text.Hex

/-!
# Notices

What commands tell about their work on the side, with a level that a log filter
may select by.
-/

namespace Lexicolor

inductive Level where
  | error
  | warn
  | info
  | debug
  | trace
  deriving DecidableEq

namespace Level

/-- Levels by how much they tell. -/
def detail : Level → Nat
  | error => 1
  | warn => 2
  | info => 3
  | debug => 4
  | trace => 5

def label : Level → String
  | error => "ERROR"
  | warn => "WARN"
  | info => "INFO"
  | debug => "DEBUG"
  | trace => "TRACE"

end Level

/-- Files are given as notices show them. -/
inductive Notice where
  | paths (root source : String)
  | sourceRead (path : String) (bytes : Nat)
  | emptyTable (path : String)
  | wrote (file : String) (figures : List (String × String))
  | rewrote (file : String) (figures : List (String × String))
  | noConfigTemplate (file : String)
  | noConfig (file : String)
  | noExamples (file : String)
  | noTokenColors (file : String)
  | notLoaded (file : String) (failure : Failure)
  | invalidPattern (pattern : String)
  | notCovered (missed mismatches : Nat)
  | tokensFound (count : Nat) (file : String)
  | allUpdated

namespace Notice

def level : Notice → Level
  | paths .. | sourceRead .. | emptyTable .. | noConfigTemplate .. | tokensFound .. => .debug
  | wrote .. | rewrote .. | allUpdated => .info
  | _ => .warn

/-- The name by which a log filter selects notices of this kind. -/
def target : Notice → String
  | paths .. => "scopegen"
  | sourceRead .. | emptyTable .. => "scopegen::parser"
  | invalidPattern .. => "scopegen::processor::coverage"
  | _ => "scopegen::commands"

/-- What a notice says, without its figures. -/
def message (wording : Json.Fault → String) : Notice → String
  | paths .. => "resolved paths"
  | sourceRead .. => "source loaded"
  | emptyTable .. => "missing, using empty table"
  | wrote file _ => "wrote " ++ file
  | rewrote file _ => "rewrote " ++ file
  | noConfigTemplate file => "no " ++ file ++ ", writing plain rules"
  | noConfig file => file ++ " not found, leaving its section empty"
  | noExamples file => file ++ " not found, ordering without it"
  | noTokenColors file => file ++ " has no tokenColors"
  | notLoaded file failure => "could not load " ++ file ++ ": " ++ failure.line wording
  | invalidPattern _ => "grammar pattern does not compile"
  | notCovered .. => "grammar does not cover every keyword"
  | tokensFound .. => "tokenized"
  | allUpdated => "all artifacts updated"

/-- The names and values that a notice gives. -/
def figures : Notice → List (String × String)
  | paths root source => [("root", root), ("source", source)]
  | sourceRead path bytes => [("path", path), ("bytes", toString bytes)]
  | emptyTable path => [("path", path)]
  | wrote _ figures => figures
  | rewrote _ figures => figures
  | invalidPattern pattern => [("pattern", pattern)]
  | notCovered missed mismatches =>
      [("unmatched", toString missed), ("mismatches", toString mismatches)]
  | tokensFound count file => [("tokens", toString count), ("file", file)]
  | _ => []

/-- The names by which a log filter selects what a notice says. -/
def names (notice : Notice) : List String := "message" :: notice.figures.map Prod.fst

/-- The characters that may control a terminal, written as escapes. -/
def escaped (c : Char) : List Char :=
  if c ∈ ['\x07', '\x08', '\x0c', '\x1b', '\x7f'] then
    ['\\', 'x'] ++ Text.hexPair c.toNat
  else if 0x80 ≤ c.toNat && c.toNat ≤ 0x9f then
    ['\\', 'u', '\x7b'] ++ Text.hexPair c.toNat ++ ['\x7d']
  else [c]

/-- The lines of a log, without the blanks around them. Only the message is escaped. -/
def lines (wording : Json.Fault → String) (notice : Notice) : List String :=
  let message := String.ofList ((notice.message wording).toList.flatMap escaped)
  let text := " ".intercalate (notice.level.label :: message ::
    notice.figures.map fun (name, value) => name ++ "=" ++ value)
  (Text.splitOn '\n' text.toList).map fun line => String.ofList (Text.trim line)

end Notice

end Lexicolor
