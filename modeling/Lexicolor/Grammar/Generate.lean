import Lexicolor.Catalog.Keyword
import Lexicolor.Catalog.Prefix
import Lexicolor.Grammar.Basic
import Lexicolor.Pattern.Lexeme
import Lexicolor.Scope.Name
import Lexicolor.Text.Longest

/-!
# The grammar of the tables

One pattern for the keywords of each scope comes first, then one for each
prefix. Longer words come before shorter ones, so that none is cut short.
-/

namespace Lexicolor.Grammar

open Text

/-- The words as alternatives. -/
def alternation (words : List (List Char)) : List Char :=
  join ['|'] ((longestFirst id words).map Pattern.escape)

def boundary : List Char := ['\\', 'b']

/-- The pattern for keywords. A word boundary stands at both ends of a keyword; before a hash
there is none. -/
def keywordPattern (words : List (List Char)) : List Char :=
  let directives := words.filterMap (after? ['#'])
  let plain := words.filter fun word => word.head? ≠ some '#'
  let parts :=
    (if plain.isEmpty then []
      else [boundary ++ "(?:".toList ++ alternation plain ++ ")".toList ++ boundary]) ++
    (if directives.isEmpty then []
      else ["#(?:".toList ++ alternation directives ++ ")".toList ++ boundary])
  join ['|'] parts

/-- The pattern for identifiers with a prefix. -/
def prefixPattern (name : List Char) : List Char :=
  boundary ++ Pattern.escape name ++ "[A-Za-z0-9_]+".toList ++ boundary

def captured (pattern : List Char) (scope : String) : GrammarPattern :=
  .captured (String.ofList ('(' :: pattern ++ [')'])) scope

/-- The keywords of each scope. Examples and keywords without classification are left out. -/
def keywordsByScope (keywords : KeywordTable) : Table String (List (List Char)) :=
  keywords.entries.foldl
    (fun groups (keyword, entry) =>
      if entry.isExample || entry.classification = "" then groups
      else groups.alter (Scope.ofClassification entry.classification) fun old =>
        old.getD [] ++ [keyword.toList])
    .empty

/-- The grammar for tables of prefixes and keywords. -/
def generate (prefixes : PrefixTable) (keywords : KeywordTable) : Grammar where
  scopeName := "malterlib.injection"
  injectionSelector := "L:source.c -meta.preprocessor -string -comment, " ++
    "L:source.cpp -meta.preprocessor -string -comment"
  patterns :=
    ((keywordsByScope keywords).entries.map fun (scope, words) =>
      captured (keywordPattern words) scope) ++
    (longestFirst (fun entry => entry.1.toList) prefixes.entries).map fun (name, entry) =>
      captured (prefixPattern name.toList) (Scope.ofClassification entry.classification)
  repository := .empty

end Lexicolor.Grammar
