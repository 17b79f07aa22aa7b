import Lexicolor.Classifier
import Lexicolor.Settings.Basic
import Lexicolor.Theme.Rule

/-!
# Colours of scopes

Examples of colours are identifiers, and so tell the colours of their scopes. A
scope with a single colour has a rule; other scopes are in conflict.
-/

namespace Lexicolor.Settings

structure SemanticColors where
  /-- The colour of each scope with a single one. -/
  rules : Table String String
  /-- The colours of each other scope in ascending order. -/
  conflicting : Table String (List String)
  /-- The examples for each scope and colour. -/
  examples : Table (String × String) (List String)

/-- An example that has a scope. -/
structure Sighting where
  scope : String
  color : String
  identifier : String

/-- The examples that have a scope, in order. -/
def sightings (classifier : Classifier) (examples : List ColorExample) : List Sighting :=
  examples.flatMap fun entry => entry.examples.filterMap fun identifier =>
    (classifier.classify identifier).map fun scope => ⟨scope, entry.color, identifier⟩

namespace SemanticColors

/-- The colours of each scope, in order of appearance. -/
def colorsByScope (sightings : List Sighting) : Table String (List String) :=
  sightings.foldl
    (fun found s => found.alter s.scope fun old => ascending (old.getD [] ++ [s.color])) .empty

/-- The colour in a list of one. -/
def single? : List String → Option String
  | [color] => some color
  | _ => none

/-- The colours of the scopes that a classifier gives the examples. -/
def classified (classifier : Classifier) (examples : List ColorExample) : SemanticColors :=
  let sightings := sightings classifier examples
  let colors := colorsByScope sightings
  { rules := colors.filterMap fun _ colors => single? colors
    conflicting := colors.filter fun _ colors => (single? colors).isNone
    examples := sightings.foldl
      (fun found s => found.alter (s.scope, s.color) fun old => old.getD [] ++ [s.identifier])
      .empty }

def ofExamples (examples : List ColorExample) (scopes : ScopeTable) : SemanticColors :=
  classified (Classifier.ofTable scopes) examples

/-- The scopes that have examples. -/
def covered (colors : SemanticColors) : List String :=
  colors.rules.keys ++ colors.conflicting.keys

/-- The report as text; `legend` holds the scopes that should have examples. -/
def text (colors : SemanticColors) (legend : List String) : String :=
  let uncovered := legend.filter fun scope => scope ∉ colors.covered
  s!"Scopes with a colour: {colors.rules.size}\n" ++
  (if uncovered.isEmpty then ""
  else
    s!"\nScopes without examples ({uncovered.length}):\n" ++
      String.join (uncovered.map fun scope => "  " ++ scope ++ "\n")) ++
  if colors.conflicting.isEmpty then ""
  else
    "\nScopes with conflicting colours (discarded):\n" ++
      String.join (colors.conflicting.entries.map fun (scope, found) =>
        "  " ++ scope ++ ":\n" ++ String.join (found.map fun color =>
          let examples := (colors.examples.get? (scope, color)).getD []
          "    " ++ color ++ ": " ++ ", ".intercalate examples ++ "\n"))

end SemanticColors

def withScopeColors (template : Json) (rules : List (String × String)) : Json :=
  template.set "editor.semanticTokenColorCustomizations"
    (.object [("enabled", .bool true), ("rules", .ofStrings rules)])

def srgbEntry (entry : String × String) : Except Problem (String × String) :=
  Prod.mk entry.1 <$> Color.srgbText entry.2

/-- The settings that carry the colours of the scopes. -/
def ofSemanticColors (colors : SemanticColors) (template : Json) : Except Problem Settings := do
  let template ← templateObject template
  let srgbRules ← colors.rules.entries.mapM srgbEntry
  let srgb ← srgbTemplate template
  return ⟨withScopeColors template colors.rules.entries, withScopeColors srgb srgbRules⟩

end Lexicolor.Settings
