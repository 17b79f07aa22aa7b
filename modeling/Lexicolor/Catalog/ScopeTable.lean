import Lexicolor.Catalog.Classification
import Lexicolor.Catalog.Keyword
import Lexicolor.Catalog.Prefix

/-!
# Scope tables

The scopes of keywords and prefixes, and the legend, which lists the scopes
that tokens may have.
-/

namespace Lexicolor

structure PrefixScope where
  scope : String
  isVariable : Bool
  deriving DecidableEq

structure ScopeTable where
  keywords : Table String String
  prefixes : Table String PrefixScope
  legend : List String

namespace PrefixScope

/-- The fields of an entry as far as they are read. -/
structure Draft where
  scope : Option String := none
  isVariable : Bool := false

open Json in
def fields : List (RecordField Draft) := [
  .of "scope" Decoder.string fun value draft => { draft with scope := value },
  .of "variable" Decoder.bool fun value draft => { draft with isVariable := value }]

def decoder : Json.Decoder PrefixScope := fun depth node => do
  let draft ← Json.RecordField.readRecord fields {} depth node
  return ⟨← Json.required draft.scope, draft.isVariable⟩

def toJson (entry : PrefixScope) : Json :=
  .object [("scope", .string entry.scope), ("variable", .bool entry.isVariable)]

end PrefixScope

namespace ScopeTable

def empty : ScopeTable := ⟨.empty, .empty, []⟩

/-- Joins the tables. Keywords and prefixes of unknown classification are left out, and so are
example keywords; the legend holds the scopes in use in ascending order. -/
def combine (keywords : KeywordTable) (prefixes : PrefixTable)
    (classifications : ClassificationTable) : ScopeTable :=
  let keywordScopes : Table String String := .ofList <|
    keywords.entries.filterMap fun (keyword, entry) =>
      if entry.isExample then none
      else (classifications.get? entry.classification).map fun scope => (keyword, scope)
  let prefixScopes : Table String PrefixScope := .ofList <|
    prefixes.entries.filterMap fun (name, entry) =>
      (classifications.get? entry.classification).map fun scope =>
        (name, ⟨scope, entry.isVariable⟩)
  { keywords := keywordScopes
    prefixes := prefixScopes
    legend := ascending (keywordScopes.values ++ prefixScopes.values.map (·.scope)) }

open Json in
def fields : List (RecordField ScopeTable) := [
  .of "keywords" (Decoder.table .string) fun value table => { table with keywords := value },
  .of "prefixes" (Decoder.table PrefixScope.decoder) fun value table =>
    { table with prefixes := value },
  .of "scopes" (Decoder.list .string) fun value table => { table with legend := value }]

def decoder : Json.Decoder ScopeTable := Json.RecordField.readRecord fields empty

def toJson (table : ScopeTable) : Json :=
  .object [
    ("keywords", .ofStrings table.keywords.entries),
    ("prefixes", .object (table.prefixes.entries.map fun (name, entry) => (name, entry.toJson))),
    ("scopes", .stringArray table.legend)]

end ScopeTable

end Lexicolor
