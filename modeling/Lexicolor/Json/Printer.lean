import Lexicolor.Json.Value
import Lexicolor.Text.Hex
import Lexicolor.Text.Search

/-!
# Writing JSON texts

Values are written with one element per line, each level indented by the same
text, or without any blanks. Only what the notation demands is escaped.
-/

namespace Lexicolor.Json

/-- A character of a string literal. -/
def escape (c : Char) : List Char :=
  if c = '"' then ['\\', '"']
  else if c = '\\' then ['\\', '\\']
  else if c = '\x08' then ['\\', 'b']
  else if c = '\x0c' then ['\\', 'f']
  else if c = '\n' then ['\\', 'n']
  else if c = '\r' then ['\\', 'r']
  else if c = '\t' then ['\\', 't']
  else if c.toNat < 0x20 then ['\\', 'u', '0', '0'] ++ Text.hexPair c.toNat
  else [c]

/-- A string literal. -/
def quote (s : String) : List Char := '"' :: s.toList.flatMap escape ++ ['"']

/-- A line feed and the indentation of a level. -/
def newline (indent : List Char) (level : Nat) : List Char :=
  '\n' :: (List.replicate level indent).flatten

mutual

/-- The text of a value inside `level` containers. -/
def pretty (indent : List Char) (level : Nat) : Json → List Char
  | .null => ['n', 'u', 'l', 'l']
  | .bool true => ['t', 'r', 'u', 'e']
  | .bool false => ['f', 'a', 'l', 's', 'e']
  | .number n => n.write
  | .string s => quote s
  | .array [] => ['[', ']']
  | .array (item :: items) =>
      '[' :: newline indent (level + 1) ++ pretty indent (level + 1) item ++
        prettyItems indent (level + 1) items ++ newline indent level ++ [']']
  | .object [] => ['\x7b', '\x7d']
  | .object ((key, value) :: members) =>
      '\x7b' :: newline indent (level + 1) ++ quote key ++ [':', ' '] ++
        pretty indent (level + 1) value ++
        prettyMembers indent (level + 1) members ++ newline indent level ++ ['\x7d']

/-- Further items, each after a comma. -/
def prettyItems (indent : List Char) (level : Nat) : List Json → List Char
  | [] => []
  | item :: items =>
      ',' :: newline indent level ++ pretty indent level item ++ prettyItems indent level items

/-- Further members, each after a comma. -/
def prettyMembers (indent : List Char) (level : Nat) : List (String × Json) → List Char
  | [] => []
  | (key, value) :: members =>
      ',' :: newline indent level ++ quote key ++ [':', ' '] ++ pretty indent level value ++
        prettyMembers indent level members

end

mutual

/-- The text of a value without blanks. -/
def compact : Json → List Char
  | .null => ['n', 'u', 'l', 'l']
  | .bool true => ['t', 'r', 'u', 'e']
  | .bool false => ['f', 'a', 'l', 's', 'e']
  | .number n => n.write
  | .string s => quote s
  | .array items => '[' :: Text.join [','] (compactItems items) ++ [']']
  | .object members => '\x7b' :: Text.join [','] (compactMembers members) ++ ['\x7d']

def compactItems : List Json → List (List Char)
  | [] => []
  | item :: items => compact item :: compactItems items

def compactMembers : List (String × Json) → List (List Char)
  | [] => []
  | (key, value) :: members => (quote key ++ ':' :: compact value) :: compactMembers members

end

/-- The indentation of tables and settings. -/
def tableIndent : List Char := [' ', ' ']

/-- The indentation of themes. -/
def themeIndent : List Char := [' ', ' ', ' ', ' ']

/-- The text of a file that holds the value. -/
def write (indent : List Char) (value : Json) : String :=
  String.ofList (pretty indent 0 value ++ ['\n'])

/-- The text of a table or settings file. -/
def text (value : Json) : String := write tableIndent value

/-- The text of a theme file. -/
def themeText (value : Json) : String := write themeIndent value

end Lexicolor.Json
