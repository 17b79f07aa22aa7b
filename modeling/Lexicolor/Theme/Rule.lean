import Lexicolor.Json.Decoder
import Lexicolor.Text.Search
import Lexicolor.Unicode.Lowercase

/-!
# Token colour rules

An entry of a theme's token colours gives settings to scopes. Examples of
colours order the entries: those with a listed colour come first.
-/

namespace Lexicolor

/-- A colour, and identifiers that should have it. -/
structure ColorExample where
  color : String
  examples : List String

namespace ColorExample

open Json in
def fields : List (RecordField ColorExample) := [
  .of "color" Decoder.string fun value entry => { entry with color := value },
  .of "examples" (Decoder.list .string) fun value entry => { entry with examples := value }]

def decoder : Json.Decoder ColorExample := Json.RecordField.readRecord fields ⟨"", []⟩

end ColorExample

namespace Theme

/-- The entries of the token colours; none where they are no array. -/
def tokenColors (theme : Json) : List Json :=
  ((theme.get? "tokenColors").bind Json.asArray?).getD []

/-- The scopes of an entry; one text counts as a list of one. -/
def ruleScopes (rule : Json) : List String :=
  match rule.get? "scope" with
  | some (.string scope) => [scope]
  | some (.array items) => items.filterMap Json.asString?
  | _ => []

/-- The foreground of an entry as written. -/
def foreground? (rule : Json) : Option String :=
  ((rule.get? "settings").bind (Json.get? "foreground")).bind Json.asString?

/-- The position of each colour in small letters; of a repeated colour the last. -/
def colorOrder (examples : List ColorExample) : Table String Nat :=
  .ofList <| (examples.zipIdx.filter fun (entry, _) => entry.color ≠ "").map fun (entry, i) =>
    (Unicode.lowerString entry.color, i)

/-- Where an entry comes. -/
inductive Priority where
  /-- Its colour is listed at a position. -/
  | listed (position : Nat)
  /-- It has a scope of the highlighter. -/
  | own
  | other
  deriving DecidableEq

namespace Priority

/-- The block of entries, and the place in it. -/
def rank : Priority → Nat × Nat
  | listed position => (0, position)
  | own => (1, 0)
  | other => (2, 0)

def block (p : Priority) : Nat := p.rank.1

/-- `p` does not come after `q`. -/
def le (p q : Priority) : Bool :=
  p.rank.1 < q.rank.1 || (p.rank.1 == q.rank.1 && p.rank.2 ≤ q.rank.2)

def label : Priority → String
  | listed _ => "colorexamples"
  | own => "malterlib-other"
  | other => "non-malterlib-other"

end Priority

/-- A scope of the highlighter somewhere in the text. -/
def namesOwnScope (scope : String) : Bool :=
  Text.contains "malterlib.".toList scope.toList

def priority (order : Table String Nat) (rule : Json) : Priority :=
  match order.get? (Unicode.lowerString ((foreground? rule).getD "")) with
  | some position => .listed position
  | none => if (ruleScopes rule).any namesOwnScope then .own else .other

end Theme

end Lexicolor
