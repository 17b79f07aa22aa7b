import Lexicolor.Json.Decoder

/-!
# Keywords

A keyword has a classification. Keywords marked as examples only document a
prefix. In a file, an entry that is no example may be just its classification.
-/

namespace Lexicolor

structure KeywordEntry where
  classification : String
  /-- Examples never become keyword rules. -/
  isExample : Bool
  deriving DecidableEq

/-- Keywords with their entries. -/
abbrev KeywordTable := SortedTable KeywordEntry

namespace KeywordEntry

/-- The fields of an entry as far as they are read. -/
structure Draft where
  classification : Option String := none
  isExample : Bool := false

open Json in
def fields : List (RecordField Draft) := [
  .of "classification" Decoder.string fun value draft => { draft with classification := value },
  .of "example" Decoder.bool fun value draft => { draft with isExample := value }]

def decoder : Json.Decoder KeywordEntry :=
  .stringOr (fun classification => ⟨classification, false⟩) fun depth node => do
    let draft ← Json.RecordField.readObject fields {} depth node
    return ⟨← Json.required draft.classification, draft.isExample⟩

def toJson (entry : KeywordEntry) : Json :=
  .object (("classification", .string entry.classification) ::
    if entry.isExample then [("example", .bool true)] else [])

end KeywordEntry

namespace KeywordTable

def decoder : Json.Decoder KeywordTable := .sortedTable KeywordEntry.decoder

def toJson (table : KeywordTable) : Json :=
  .object (table.entries.map fun (keyword, entry) => (keyword, entry.toJson))

end KeywordTable

end Lexicolor
