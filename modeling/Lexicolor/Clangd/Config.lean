import Lexicolor.Clangd.Rule
import Lexicolor.Text.Lines

/-!
# Configuration files of the language server

Without a template, a file is one section that holds every rule. A template has
slots, two lines each, that are filled with the rules of the scope they name;
the section with all rules follows.
-/

namespace Lexicolor.Clangd

open Text

def regexKey : List Char := "- regex:".toList

def addKey : List Char := "add:".toList

/-- A text in single quotes; a quote inside is written twice. -/
def singleQuoted (cs : List Char) : List Char :=
  '\'' :: cs.flatMap (fun c => if c = '\'' then ['\'', '\''] else [c]) ++ ['\'']

def regexLine (indent : List Char) (rule : Rule) : List Char :=
  indent ++ regexKey ++ ' ' :: singleQuoted rule.regex.toList

def addLine (indent : List Char) (rule : Rule) (tag : List Char) : List Char :=
  indent ++ addKey ++ " [".toList ++ (", ".intercalate rule.modifiers).toList ++ "]  # ".toList ++
    tag

/-- The section that holds every rule. -/
def unknownSection (rules : List Rule) : List (List Char) :=
  "    Unknown:".toList :: rules.flatMap fun rule =>
    [regexLine "      ".toList rule,
      addLine "        ".toList rule (Scope.dotted rule.scope).toList]

/-- The characters of a scope in a tag. -/
def isTagChar (c : Char) : Bool := isIdentChar c || c == '.' || c == '-'

/-- The first tag of a line: a hash, blanks and a scope. -/
def tag? : List Char → Option (List Char)
  | [] => none
  | c :: cs =>
      let found := (dropBlanks cs).takeWhile isTagChar
      if c = '#' ∧ !found.isEmpty then some found else tag? cs

/-- A place for a rule: what stands before its two keys, and the scope it names. -/
structure Slot where
  regexIndent : List Char
  addIndent : List Char
  tag : List Char

/-- The slot that two lines make. -/
def slot? (line next : List Char) : Option Slot := do
  let (regexIndent, _) ← cut? regexKey line
  guard (allBlank regexIndent)
  let tag ← tag? next
  let (addIndent, _) ← cut? addKey next
  return ⟨regexIndent, addIndent, tag⟩

/-- The rules that are left for each scope, in their order. -/
abbrev Queues := Table String (List Rule)

/-- Every rule in the queue of its scope. -/
def Queues.ofRules (rules : List Rule) : Queues :=
  rules.foldl (fun queues rule => queues.alter rule.scope fun old => old.getD [] ++ [rule]) .empty

/-- The first rule that is left for a scope, and what is left without it. -/
def Queues.pop? (queues : Queues) (scope : List Char) : Option (Rule × Queues) :=
  match queues.get? (String.ofList scope) with
  | some (rule :: rest) => some (rule, queues.set (String.ofList scope) rest)
  | _ => none

/-- The scope that a tag spells with dots. -/
def hyphenated (tag : List Char) : List Char := tag.map fun c => if c = '.' then '-' else c

/-- The next rule for a tag, which is a scope as it is or with dots for its hyphens. -/
def Queues.popTagged? (queues : Queues) (tag : List Char) : Option (Rule × Queues) :=
  (queues.pop? tag).or (queues.pop? (hyphenated tag))

/-- The slot that two lines make, the rule that it takes, and what is left. -/
def Queues.serve? (queues : Queues) (line next : List Char) : Option (Slot × Rule × Queues) := do
  let slot ← slot? line next
  let (rule, rest) ← queues.popTagged? slot.tag
  return (slot, rule, rest)

/-- The lines of a template with its slots filled, each with a rule of its own. -/
def fill (queues : Queues) : List (List Char) → List (List Char)
  | [] => []
  | [line] => [line]
  | line :: next :: lines =>
      match queues.serve? line next with
      | some (slot, rule, rest) =>
          regexLine slot.regexIndent rule :: addLine slot.addIndent rule slot.tag ::
            fill rest lines
      -- the second line may be the first line of a slot
      | none => line :: fill queues (next :: lines)

/-- The lines before the section that holds every rule. -/
def preamble (rules : List Rule) : (template : Option String) → List (List Char)
  | none => ["SemanticTokens:".toList, "  Rules:".toList]
  | some template => fill (.ofRules rules) (lines template.toList)

/-- The text of a configuration file. -/
def config (rules : List Rule) (template : Option String) : String :=
  String.ofList (unlines (preamble rules template ++ unknownSection rules))

end Lexicolor.Clangd
