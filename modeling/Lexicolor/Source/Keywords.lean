import Lexicolor.Catalog.Keyword
import Lexicolor.Source.Scan
import Lexicolor.Text.Lines

/-!
# The keywords of a C++ source

Keywords are registered by calls, one to a line. Examples of prefixes are named
by `ignore(…)`, in a call of its own or after the prefix's initialiser. An
example stays an example, whether the same word is also registered or not.
-/

namespace Lexicolor.Source

open Text

/-- A keyword with its classification. -/
abbrev Naming := List Char × List Char

/-- What may stand between the registering function's name and its parenthesis. -/
def familyMarks : List (List Char) :=
  ["(", "C(", "Cpp(", "CLike("].map String.toList

/-- The text after the head of a registering call. -/
def callHead? (cs : List Char) : Option (List Char) := do
  let cs ← after? "f_AddDefaultKeyword".toList cs
  let cs := (after? ['_'] cs).getD cs
  familyMarks.findSome? fun mark => after? mark cs

/-- A keyword in quotes, which is not empty, and its classification. -/
def naming? (cs : List Char) : Option (Naming × List Char) := do
  let (keyword, cs) ← quoted? cs
  guard !keyword.isEmpty
  let cs ← next? [','] cs
  let (classification, rest) ← classification? (dropBlanks cs)
  return ((keyword, classification), rest)

/-- A call that registers a keyword. -/
def registration? (cs : List Char) : Option Naming := do
  let cs ← callHead? cs
  let (naming, cs) ← naming? cs
  let _ ← next? [')'] cs
  return naming

/-- A call that names an example. -/
def exampleCall? (cs : List Char) : Option Naming := do
  let cs ← after? "ignore".toList cs
  let cs ← next? ['('] cs
  let (naming, cs) ← naming? cs
  let _ ← next? [','] cs
  return naming

/-- The name in a remark on an example. -/
def remark? (cs : List Char) : Option (List Char) := do
  let cs ← after? "ignore(".toList cs
  let (name, cs) ← name? (dropBlanks cs)
  let _ ← next? [')'] cs
  return name

/-- An initialiser followed by a remark: the first classification after the first opening brace,
and the first remark after the next closing brace. -/
def remarkedExample? (line : List Char) : Option Naming := do
  let (_, cs) ← cut? ['\x7b'] line
  let (classification, cs) ← first? classification? cs
  let (_, cs) ← cut? ['\x7d'] cs
  let keyword ← first? remark? cs
  return (keyword, classification)

/-- The example that a line names. -/
def exampleOf? (line : List Char) : Option Naming :=
  (first? exampleCall? line).or (remarkedExample? line)

/-- The keyword that a line registers, unless it is a script keyword. -/
def keywordOf? (line : List Char) : Option Naming :=
  if contains "f_AddDefaultKeyword_JS(".toList line then none
  else first? registration? line

/-- The table entry of a naming. -/
def entryOf (isExample : Bool) (naming : Naming) : String × KeywordEntry :=
  (String.ofList naming.1, ⟨String.ofList naming.2, isExample⟩)

/-- The keywords and examples of a source. Of several examples for a word the last counts, of
several registrations the first. -/
def keywords (source : String) : KeywordTable :=
  let lines := lines source.toList
  let examples := (lines.filterMap exampleOf?).map (entryOf true)
  let registered := (lines.filterMap keywordOf?).map (entryOf false)
  registered.foldl (fun table entry => table.setNew entry.1 entry.2) (.ofList examples)

end Lexicolor.Source
