import Lexicolor.Json.Printer
import Lexicolor.Theme.Rule

/-!
# Merging token colour rules

Entries with the same settings become one entry with all their scopes.
Settings are the same if their texts are, once the members of all objects stand
in order of their keys. The merged entries are in order of priority.
-/

namespace Lexicolor.Theme

mutual

/-- The value with the members of all its objects in ascending order of their keys. -/
def canonical : Json → Json
  | .array items => .array (canonicalItems items)
  | .object members => .object (SortedTable.ofList (canonicalMembers members)).entries
  | other => other

def canonicalItems : List Json → List Json
  | [] => []
  | item :: items => canonical item :: canonicalItems items

def canonicalMembers : List (String × Json) → List (String × Json)
  | [] => []
  | (key, value) :: members => (key, canonical value) :: canonicalMembers members

end

/-- The settings of an entry, none if it does not say. -/
def ruleSettings (rule : Json) : Json := (rule.get? "settings").getD (.object [])

/-- Entries with the same settings: the settings in canonical form, and the scopes of the
entries. -/
structure RuleGroup where
  settings : Json
  scopes : List String

namespace RuleGroup

/-- Appends the scopes that are not there already. -/
def addScopes (group : RuleGroup) (added : List String) : RuleGroup where
  settings := group.settings
  scopes := added.foldl
    (fun scopes scope => if scope ∈ scopes then scopes else scopes ++ [scope]) group.scopes

/-- The entry with all the scopes. -/
def toRule (group : RuleGroup) : Json :=
  .object [("scope", .stringArray group.scopes), ("settings", group.settings)]

end RuleGroup

/-- The text by which settings are compared. -/
def settingsText (rule : Json) : String := String.ofList (canonical (ruleSettings rule)).compact

/-- The entries grouped by the texts of their settings, in order of appearance. -/
def rulesBySettings (rules : List Json) : Table String RuleGroup :=
  rules.foldl
    (fun groups rule => groups.alter (settingsText rule) fun old =>
      (old.getD ⟨canonical (ruleSettings rule), []⟩).addScopes (ruleScopes rule))
    .empty

/-- The merged entries in order of priority; ties stay in order of appearance. -/
def mergeRules (order : Table String Nat) (rules : List Json) : List Json :=
  let merged := (rulesBySettings rules).values.map RuleGroup.toRule
  merged.mergeSort fun a b => (priority order a).le (priority order b)

/-- The appearances of a scope: the place of the entry, and its foreground. -/
abbrev Appearances := List (Nat × String)

/-- The scopes that appear more than once. -/
def duplicateScopes (rules : List Json) : Table String Appearances :=
  let found : Table String Appearances := rules.zipIdx.foldl
    (fun found (rule, i) => (ruleScopes rule).foldl
      (fun found scope => found.alter scope fun old =>
        old.getD [] ++ [(i, (foreground? rule).getD "N/A")])
      found)
    .empty
  found.filter fun _ appearances => 1 < appearances.length

structure DedupeReport where
  before : Nat
  after : Nat
  duplicateScopes : Table String Appearances
  /-- The number of entries in each block of priorities. -/
  byPriority : Nat × Nat × Nat

/-- The theme with its token colours merged, and what was done. A theme that is no object stays as
it is. -/
def dedupe (order : Table String Nat) (theme : Json) : Json × DedupeReport :=
  let rules := tokenColors theme
  let merged := mergeRules order rules
  let inBlock (block : Nat) := merged.countP fun rule => (priority order rule).block = block
  (theme.set "tokenColors" (.array merged),
    { before := rules.length
      after := merged.length
      duplicateScopes := duplicateScopes rules
      byPriority := (inBlock 0, inBlock 1, inBlock 2) })

namespace DedupeReport

def duplicateText (scope : String) (appearances : Appearances) : String :=
  s!"\n  {scope} (appeared in {appearances.length} entries):\n" ++
    String.join (appearances.map fun (i, color) => s!"    Entry {i + 1}: {color}\n")

/-- The lines on one of the first entries. -/
def entryText (order : Table String Nat) (number : Nat) (rule : Json) : String :=
  let scopes := ruleScopes rule
  let label := (priority order rule).label
  let color := (foreground? rule).getD ""
  s!"  {number}. [{label}] {color} - {scopes.length} scopes\n" ++
    match scopes with
    | [] => ""
    | first :: _ => s!"      First scope: {first}\n"

def duplicatesText (duplicates : Table String Appearances) : String :=
  if duplicates.isEmpty then "\nNo duplicate scopes found - all scopes were unique\n"
  else
    s!"\nFound {duplicates.size} scopes that appeared in multiple entries (now merged):\n" ++
      String.join ((SortedTable.ofList duplicates.entries).entries.map fun (scope, appearances) =>
        duplicateText scope appearances)

/-- The report as text; `theme` is the theme after merging. -/
def text (order : Table String Nat) (theme : Json) (report : DedupeReport) : String :=
  let (listed, own, other) := report.byPriority
  s!"Original tokenColors entries: {report.before}\n" ++
  s!"After deduplication: {report.after}\n" ++
  s!"Reduction: {report.before - report.after} entries\n" ++
  s!"Entries with colors from colorexamples.json: {listed}\n" ++
  s!"Malterlib entries with other colors: {own}\n" ++
  s!"Non-malterlib entries with other colors: {other}\n" ++
  duplicatesText report.duplicateScopes ++
  "\nFirst 10 entries after sorting:\n" ++
  String.join (((tokenColors theme).take 10).zipIdx.map fun (rule, i) =>
    entryText order (i + 1) rule)

end DedupeReport

end Lexicolor.Theme
