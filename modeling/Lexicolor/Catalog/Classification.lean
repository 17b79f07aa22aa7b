import Lexicolor.Json.Decoder
import Lexicolor.Scope.Name

/-!
# Classifications

Every classification with its scope, in the order of declaration.
-/

namespace Lexicolor

/-- Classifications with their scopes. -/
abbrev ClassificationTable := Table String String

namespace ClassificationTable

/-- The classifications with the scopes that their names give. -/
def ofNames (names : List String) : ClassificationTable :=
  Table.ofList (names.map fun name => (name, Scope.ofClassification name))

def decoder : Json.Decoder ClassificationTable := .table .string

def toJson (table : ClassificationTable) : Json := .ofStrings table.entries

end ClassificationTable

end Lexicolor
