import Lexicolor.Classifier
import Lexicolor.Text.Lines
import Lexicolor.Token.Excluded

/-!
# Semantic tokens

The tokens of a C++ text are the identifiers outside comments, literals and
include targets whose scope is in the legend.
-/

namespace Lexicolor

/-- Line and column count from zero; columns and lengths are in characters. -/
structure Token where
  line : Nat
  column : Nat
  length : Nat
  scope : String
  /-- The place of the scope in the legend. -/
  kind : Nat
  deriving DecidableEq

namespace Token

def isIdentStart (c : Char) : Bool := c.isAlpha || c == '_'

/-- The length of the identifier at the start of a text; zero when there is none. Double brackets
and directive names with their hash count as identifiers. -/
def identifierLength : List Char → Nat
  | '[' :: '[' :: _ => 2
  | ']' :: ']' :: _ => 2
  | '#' :: c :: cs =>
      if isIdentStart c then 2 + (cs.takeWhile Text.isIdentChar).length else 0
  | c :: cs => if isIdentStart c then 1 + (cs.takeWhile Text.isIdentChar).length else 0
  | [] => 0

/-- The identifiers of a line that starts at `column`, each with its column. -/
def identifiers (column : Nat) (cs : List Char) : List (Nat × List Char) :=
  match cs with
  | [] => []
  | c :: rest =>
      let n := identifierLength (c :: rest)
      if n = 0 then identifiers (column + 1) rest
      else (column, (c :: rest).take n) :: identifiers (column + n) ((c :: rest).drop n)
termination_by cs.length
decreasing_by
  · simp
  · simp only [List.length_drop, List.length_cons]; omega

/-- Some character from `start` on, `length` characters long, is marked. -/
def touches (mask : Mask) (start length : Nat) : Bool := ((mask.drop start).take length).any id

/-- The last place of a scope in the legend. -/
def kindOf? (scope : String) : (legend : List String) → Option Nat
  | [] => none
  | s :: legend => match kindOf? scope legend with
    | some i => some (i + 1)
    | none => if s = scope then some 0 else none

/-- The token of an identifier outside the marked characters. -/
def ofIdentifier? (classifier : Classifier) (legend : List String) (mask : Mask) (line : Nat)
    (found : Nat × List Char) : Option Token := do
  let (column, name) := found
  guard !touches mask column name.length
  let scope ← classifier.classify (String.ofList name)
  let kind ← kindOf? scope legend
  return ⟨line, column, name.length, scope, kind⟩

/-- The tokens of lines from number `n` on. -/
def ofLines (classifier : Classifier) (legend : List String) (n : Nat) (inBlock : Bool) :
    List (List Char) → List Token
  | [] => []
  | line :: lines =>
      let (mask, inBlock) := excluded inBlock line
      (identifiers 0 line).filterMap (ofIdentifier? classifier legend mask n) ++
        ofLines classifier legend (n + 1) inBlock lines

/-- The tokens of a text. -/
def ofText (table : ScopeTable) (text : String) : List Token :=
  ofLines (.ofTable table) table.legend 0 false (Text.lines text.toList)

/-- The text of a token. -/
def textIn (text : String) (token : Token) : String :=
  let line := (Text.lines text.toList).getD token.line []
  String.ofList ((line.drop token.column).take token.length)

def toJson (token : Token) : Json :=
  .object [("line", .ofNat token.line), ("column", .ofNat token.column),
    ("length", .ofNat token.length), ("scope", .string token.scope),
    ("token_type", .ofNat token.kind)]

end Token

end Lexicolor
