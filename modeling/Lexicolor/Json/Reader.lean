import Lexicolor.Json.Node

/-!
# Reading JSON texts

The standard dialect takes a text that is one value. The relaxed dialect takes
the first value of a text and does not look at what follows it.
-/

namespace Lexicolor.Json

/-- Reads a document into a value of some type; the first argument is the number of containers
that may still be nested. -/
abbrev Decoder (α : Type) := Nat → Node → Except Fault α

/-- Containers may be nested up to this depth. -/
def maxDepth : Nat := 127

/-- The document at the start of a text, and the tokens after it. -/
def document (dialect : Dialect) (text : String) : Node × List Token :=
  build dialect (.value false) [] (tokens dialect text.toList)

/-- Reads a text. In the standard dialect nothing may follow the value. -/
def Decoder.read {α : Type} (decoder : Decoder α) (dialect : Dialect) (text : String) :
    Except Fault α := do
  let (node, rest) := document dialect text
  let value ← decoder maxDepth node
  if dialect = .standard ∧ !rest.isEmpty then .error .malformed
  else return value

/-- The value of any text. -/
def Decoder.json : Decoder Json := fun depth node => node.toJson depth

/-- The value that a text spells. -/
def read (dialect : Dialect) (text : String) : Except Fault Json :=
  Decoder.json.read dialect text

end Lexicolor.Json
