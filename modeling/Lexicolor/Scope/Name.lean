import Lexicolor.Scope.Words
import Lexicolor.Text.Search

/-!
# Scope names

Every classification has a scope, whose name is made of the words of the
classification's name.
-/

namespace Lexicolor.Scope

/-- What the names of classifications start with. -/
def classificationHead : List Char := "EClassification_".toList

/-- Words that the names of classifications misspell, and what is meant. -/
def corrections : List (List Char × List Char) :=
  [("Bulit".toList, "Built".toList), ("bulit".toList, "built".toList)]

def correct (cs : List Char) : List Char :=
  corrections.foldl (fun cs (wrong, right) => Text.replaceAll wrong right cs) cs

/-- The words in small letters with hyphens between them; `builtin` is one word. -/
def hyphenated (segment : List Char) : List Char :=
  let names := (words (correct segment)).map Text.asciiLower
  Text.replaceAll "built-in".toList "builtin".toList (Text.join ['-'] names)

/-- The parts of the scope name that a segment between underscores gives. A segment that starts
with `Template` has that as a part of its own. -/
def segmentParts (segment : List Char) : List (List Char) :=
  match Text.after? "Template".toList segment with
  | some [] => ["template".toList]
  | some rest => ["template".toList, hyphenated rest]
  | none => [hyphenated segment]

/-- The name of the scope of a classification. -/
def nameOf (classification : List Char) : List Char :=
  let name := Text.replaceAll classificationHead [] classification
  "malterlib-".toList ++ Text.join ['-'] ((Text.splitOn '_' name).flatMap segmentParts)

/-- The scope of a classification. -/
def ofClassification (classification : String) : String :=
  String.ofList (nameOf classification.toList)

/-- The scope of enumeration types. -/
def enumeration : String := "malterlib-enum"

/-- The scope of types. -/
def type : String := "malterlib-type"

/-- The scope with dots between its words. -/
def dotted (scope : String) : String :=
  String.ofList (scope.toList.map fun c => if c = '-' then '.' else c)

end Lexicolor.Scope
