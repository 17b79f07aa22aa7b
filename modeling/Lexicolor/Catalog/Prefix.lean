import Lexicolor.Json.Decoder

/-!
# Prefixes

A prefix of identifiers has a classification. Variable prefixes allow one
concept character between the prefix and the capital. In a file, an entry that
is not variable may be just its classification.
-/

namespace Lexicolor

structure PrefixEntry where
  classification : String
  isVariable : Bool
  deriving DecidableEq

/-- Prefixes with their entries. -/
abbrev PrefixTable := SortedTable PrefixEntry

namespace PrefixEntry

/-- The fields of an entry as far as they are read. -/
structure Draft where
  classification : Option String := none
  isVariable : Bool := false

open Json in
def fields : List (RecordField Draft) := [
  .of "classification" Decoder.string fun value draft => { draft with classification := value },
  .of "variable" Decoder.bool fun value draft => { draft with isVariable := value }]

def decoder : Json.Decoder PrefixEntry :=
  .stringOr (fun classification => ⟨classification, false⟩) fun depth node => do
    let draft ← Json.RecordField.readObject fields {} depth node
    return ⟨← Json.required draft.classification, draft.isVariable⟩

def toJson (entry : PrefixEntry) : Json :=
  .object [("classification", .string entry.classification), ("variable", .bool entry.isVariable)]

end PrefixEntry

namespace PrefixTable

def decoder : Json.Decoder PrefixTable := .sortedTable PrefixEntry.decoder

def toJson (table : PrefixTable) : Json :=
  .object (table.entries.map fun (name, entry) => (name, entry.toJson))

end PrefixTable

end Lexicolor
