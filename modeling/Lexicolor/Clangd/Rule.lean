import Lexicolor.Catalog.ScopeTable
import Lexicolor.Clangd.Modifiers
import Lexicolor.Pattern.Lexeme
import Lexicolor.Text.Longest

/-!
# Rules for the language server

A rule gives the identifiers that match a pattern a set of modifiers. There is
one rule for the keywords of each scope and then one for its prefixes; a scope
has the same modifiers in all its rules, and no other scope has them.
-/

namespace Lexicolor.Clangd

structure Rule where
  regex : String
  modifiers : List String
  scope : String
  deriving DecidableEq

/-- A pattern's text and the scope of what matches. -/
abbrev Draft := List Char × String

/-- The pattern for whole identifiers that match one of the alternatives. -/
def anchored (alternatives : List (List Char)) : List Char :=
  let body := Text.join ['|'] alternatives
  if '|' ∈ body then ['^', '('] ++ body ++ [')', '$'] else '^' :: body ++ ['$']

/-- The keywords of each scope. -/
def keywordsByScope (table : ScopeTable) : SortedTable (List String) :=
  table.keywords.entries.foldl
    (fun groups (keyword, scope) => groups.alter scope fun old => old.getD [] ++ [keyword]) .empty

/-- The keyword rules, by scope; the keywords of a scope are in ascending order. -/
def keywordDrafts (table : ScopeTable) : List Draft :=
  (keywordsByScope table).entries.map fun (scope, keywords) =>
    (anchored ((ascending keywords).map fun keyword => Pattern.escape keyword.toList), scope)

/-- The patterns that a prefix gives, each with its scope. -/
def prefixPatterns (name : String) (entry : PrefixScope) : List Draft :=
  if name = "E" then
    [("E[A-Z][A-Za-z0-9_]*_[A-Za-z0-9_]*".toList, entry.scope),
      ("E[A-Z][A-Za-z0-9]*".toList, Scope.enumeration)]
  else if name = "CF" then
    [("CF[A-Z][A-Za-z0-9_]*Ref".toList, Scope.type),
      ("CF[A-Z][A-Za-z0-9_]*".toList, entry.scope)]
  else
    let head := Pattern.escape name.toList
    if entry.isVariable then
      [(head ++ "([binpfro]?[A-Z][A-Za-z0-9_]*)".toList, entry.scope)]
    else [(head ++ "[A-Z][A-Za-z0-9_]*".toList, entry.scope)]

/-- The patterns of all prefixes, those of longer prefixes first. -/
def orderedPatterns (table : ScopeTable) : List Draft :=
  (Text.longestFirst (fun entry => entry.1.toList) table.prefixes.entries).flatMap
    fun (name, entry) => prefixPatterns name entry

/-- The patterns of each scope; the scopes are in the order of their first patterns. -/
def patternsByScope (table : ScopeTable) : Table String (List (List Char)) :=
  (orderedPatterns table).foldl
    (fun groups (pattern, scope) => groups.alter scope fun old => old.getD [] ++ [pattern]) .empty

/-- The prefix rules, one for each scope. -/
def prefixDrafts (table : ScopeTable) : List Draft :=
  (patternsByScope table).entries.map fun (scope, alternatives) => (anchored alternatives, scope)

/-- The modifiers of the scopes so far, and the sets that are left for others. -/
structure Encoding where
  assigned : Table String (List String)
  left : List (List Nat)

/-- The modifiers of a scope, and the encoding after it. A scope without modifiers takes the next
set, if one is left. -/
def Encoding.admit? (e : Encoding) (scope : String) : Option (List String × Encoding) :=
  match e.assigned.get? scope with
  | some modifiers => some (modifiers, e)
  | none => match e.left with
    | [] => none
    | set :: left =>
        let modifiers := set.map modifierName
        some (modifiers, ⟨e.assigned.set scope modifiers, left⟩)

/-- The rules for the drafts in their order; `distinct` is the number of all scopes. -/
def assign (distinct : Nat) (e : Encoding) : List Draft → Except Problem (List Rule)
  | [] => .ok []
  | (pattern, scope) :: drafts => match e.admit? scope with
    | none => .error (.tooManyScopes distinct maxModifiers)
    | some (modifiers, e) =>
        (⟨String.ofList pattern, modifiers, scope⟩ :: ·) <$> assign distinct e drafts

/-- Gives each scope, at its first rule, the next set of modifiers. -/
def assignModifiers (drafts : List Draft) : Except Problem (List Rule) := do
  let distinct := (drafts.map Prod.snd).eraseDups.length
  let count ← modifierCount distinct
  assign distinct ⟨.empty, modifierSets count⟩ drafts

/-- The patterns for a scope table: those for the keywords first. -/
def allDrafts (table : ScopeTable) : List Draft := keywordDrafts table ++ prefixDrafts table

/-- The rules for a scope table. -/
def rules (table : ScopeTable) : Except Problem (List Rule) :=
  assignModifiers (allDrafts table)

end Lexicolor.Clangd
