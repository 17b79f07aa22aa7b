import Mathlib
import Lexicolor.Proofs.Classification
import Lexicolor.Proofs.Combination
import Lexicolor.Proofs.Token.Tokens

/-!
# The legend of joined tables

The legend of joined tables holds every scope that the classifier takes from the
tables. Only two scopes come from the classifier itself, each through one plain
prefix, and only identifiers with one of them can lack their token.
-/

namespace Lexicolor

namespace ScopeTable

variable {table : ScopeTable} {name head scope : String}

/-- The plain prefix is the longest one that fits the identifier, which is no keyword. -/
structure ThroughPlain (table : ScopeTable) (name head : String) : Prop where
  unlisted : table.Unlisted name
  fits : ∃ scope, table.Fits name head ⟨scope, false⟩
  longest : ∀ other entry, table.Fits name other entry → other.length ≤ head.length

/-- The scope is one that the classifier has in place of the scope of a plain prefix. -/
inductive BuiltIn (table : ScopeTable) (name : String) : String → Prop
  | enumeration : table.ThroughPlain name "E" → '_' ∉ name.toList →
      BuiltIn table name Scope.enumeration
  | type : table.ThroughPlain name "CF" → "Ref".toList <:+ name.toList →
      BuiltIn table name Scope.type

/-- A prefix gives its own scope, or one of the two that the classifier has. -/
theorem scopeOf_longest {entry : PrefixScope} (hunlisted : table.Unlisted name)
    (hfits : table.Fits name head entry)
    (hlongest : ∀ other entry', table.Fits name other entry' → other.length ≤ head.length) :
    entry.scopeOf head name = entry.scope ∨ table.BuiltIn name (entry.scopeOf head name) := by
  obtain ⟨own, isVariable⟩ := entry
  rw [PrefixScope.scopeOf]
  split
  next h =>
    obtain ⟨rfl, rfl, hname⟩ := h
    exact .inr (.enumeration ⟨hunlisted, ⟨own, hfits⟩, hlongest⟩ hname)
  next =>
    split
    next h =>
      obtain ⟨rfl, rfl, hname⟩ := h
      exact .inr (.type ⟨hunlisted, ⟨own, hfits⟩, hlongest⟩ hname)
    next => exact .inl rfl

/-- The classifier takes scopes from the keywords, from the prefixes, or has them itself. -/
theorem origin_of_classify (h : table.classify name = some scope) :
    (∃ word, table.keywords.get? word = some scope) ∨
      (∃ head entry, table.prefixes.get? head = some entry ∧ entry.scope = scope) ∨
        table.BuiltIn name scope := by
  cases classify_eq_iff.mp h with
  | keyword hkeyword _ => exact .inl ⟨name, hkeyword⟩
  | longest hunlisted hfits hlongest =>
      rcases scopeOf_longest hunlisted hfits hlongest with hown | hbuiltIn
      · exact .inr (.inl ⟨_, _, hfits.mem, hown.symm⟩)
      · exact .inr (.inr hbuiltIn)

end ScopeTable

namespace Token

open ScopeTable

variable (keywords : KeywordTable) (prefixes : PrefixTable) (classifications : ClassificationTable)

theorem builtIn_of_notMem_legend {name scope : String}
    (hclassify : (combine keywords prefixes classifications).classify name = some scope)
    (hlegend : scope ∉ (combine keywords prefixes classifications).legend) :
    (combine keywords prefixes classifications).BuiltIn name scope := by
  have hnone := mt (mem_legend_combine ..).mpr hlegend
  rcases origin_of_classify hclassify with hkeyword | hprefix | hbuiltIn
  · exact absurd (.inl hkeyword) hnone
  · exact absurd (.inr hprefix) hnone
  · exact hbuiltIn

/-- Joined tables hold the keywords that are no examples and the prefixes, as far as their
classifications are known, and the legend has exactly their scopes in ascending order. So a scope
outside the legend is one of the two that the classifier has itself, and these are the only ones
for which an identifier has no token. -/
theorem combine_legend :
    let table := combine keywords prefixes classifications
    (∀ word scope, table.keywords.get? word = some scope ↔
      ∃ entry, keywords.get? word = some entry ∧ entry.isExample = false ∧
        classifications.get? entry.classification = some scope) ∧
    (∀ name result, table.prefixes.get? name = some result ↔
      ∃ entry, prefixes.get? name = some entry ∧ entry.isVariable = result.isVariable ∧
        classifications.get? entry.classification = some result.scope) ∧
    table.legend.Pairwise (· < ·) ∧
    (∀ scope, scope ∈ table.legend ↔ (∃ word, table.keywords.get? word = some scope) ∨
      ∃ name entry, table.prefixes.get? name = some entry ∧ entry.scope = scope) ∧
    (∀ name scope, table.classify name = some scope →
      scope ∈ table.legend ∨ table.BuiltIn name scope) ∧
    ∀ text (place : Token), place.Identified text →
      table.classify (place.textIn text) = some place.scope →
      (∃ token ∈ ofText table text, token.line = place.line ∧ token.column = place.column ∧
        token.length = place.length ∧ token.scope = place.scope) ∨
      place.scope ∉ table.legend ∧ table.BuiltIn (place.textIn text) place.scope := by
  intro table
  have hbuiltIn {name scope : String} (hclassify : table.classify name = some scope) :
      scope ∈ table.legend ∨ scope ∉ table.legend ∧ table.BuiltIn name scope := by
    by_cases hlegend : scope ∈ table.legend
    · exact .inl hlegend
    · exact .inr ⟨hlegend, builtIn_of_notMem_legend _ _ _ hclassify hlegend⟩
  refine ⟨get?_keywords_combine _ _ _, get?_prefixes_combine _ _ _, pairwise_legend_combine _ _ _,
    mem_legend_combine _ _ _, fun name scope hclassify => ?_, fun text place hplace hclassify => ?_⟩
  · exact (hbuiltIn hclassify).imp_right And.right
  · refine (hbuiltIn hclassify).imp_left fun hlegend => ?_
    exact exists_token hplace hclassify hlegend

/-- A table with the prefix of enumerations, under a classification of its own. -/
def colors : PrefixTable := ⟨[("E", ⟨"EClassification_Color", false⟩)], by decide⟩

theorem combine_legend_colors :
    let table := combine .empty colors (.ofList [("EClassification_Color", "color")])
    table.classify "ERed" = some Scope.enumeration ∧ Scope.enumeration ∉ table.legend ∧
      table.BuiltIn "ERed" Scope.enumeration := by
  intro table
  have hclassify : table.classify "ERed" = some Scope.enumeration := by cbv
  have hlegend : Scope.enumeration ∉ table.legend := by decide
  obtain ⟨-, -, -, -, hscopes, -⟩ := combine_legend .empty colors
    (.ofList [("EClassification_Color", "color")])
  exact ⟨hclassify, hlegend, (hscopes _ _ hclassify).resolve_left hlegend⟩

end Token

end Lexicolor
