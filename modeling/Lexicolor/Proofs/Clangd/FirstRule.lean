import Mathlib
import Lexicolor.Proofs.Clangd.RuleLanguage

/-!
# The first rule that applies

Of the rules that apply to an identifier the first one decides. Keyword rules
come before prefix rules, and a prefix rule stands where the first pattern of
its scope stands, however short the prefix of that pattern is.
-/

namespace Lexicolor.Clangd

open Pattern

variable {table : ScopeTable} {scope : String} {word : String} {found : List Rule}

/-- The scope of the first rule that applies. -/
def firstScope (rules : List Rule) (word : String) : Option String :=
  (rules.find? fun r => r.accepts word).map Rule.scope

/-- The place of a scope among the patterns in order: that of its first pattern. -/
def place (table : ScopeTable) (scope : String) : Nat :=
  ((orderedPatterns table).map Prod.snd).idxOf scope

/-- The scope of the first draft that applies. -/
def firstDraft (drafts : List Draft) (word : List Char) : Option String :=
  (drafts.find? fun draft => accepts draft.1 word).map Prod.snd

theorem firstScope_eq (h : rules table = .ok found) (word : String) : firstScope found word =
    (firstDraft (keywordDrafts table) word.toList).or
      (firstDraft (prefixDrafts table) word.toList) := by
  have hfind : firstScope found word = firstDraft (allDrafts table) word.toList := by
    rw [← map_of_rules h, firstDraft, List.find?_map, Option.map_map]
    rfl
  rw [hfind, firstDraft, allDrafts, List.find?_append, Option.map_or]
  rfl

/-- The keyword rules know the keywords and nothing else. -/
theorem firstDraft_keywordDrafts (word : String) :
    firstDraft (keywordDrafts table) word.toList = table.keywords.get? word := by
  cases hfind : (keywordDrafts table).find? fun draft => accepts draft.1 word.toList with
  | none =>
      rw [firstDraft, hfind, Option.map_none, eq_comm, Option.eq_none_iff_forall_ne_some]
      intro scope hget
      obtain ⟨draft, hdraft, -, haccepts⟩ := (exists_keywordDrafts_iff word).mpr hget
      exact List.find?_eq_none.mp hfind draft hdraft haccepts
  | some draft =>
      rw [firstDraft, hfind, Option.map_some, eq_comm, ← exists_keywordDrafts_iff]
      exact ⟨draft, List.mem_of_find?_eq_some hfind, rfl, by simpa using List.find?_some hfind⟩

theorem firstDraft_eq_find? {drafts : List Draft} {word : List Char} {q : String → Bool}
    (h : ∀ draft ∈ drafts, accepts draft.1 word = q draft.2) :
    firstDraft drafts word = (drafts.map Prod.snd).find? q := by
  unfold firstDraft
  induction drafts with
  | nil => rfl
  | cons draft drafts ih =>
      obtain ⟨hdraft, hdrafts⟩ := List.forall_mem_cons.mp h
      rw [List.find?_cons, List.map_cons, List.find?_cons, hdraft]
      cases q draft.2 with
      | true => rfl
      | false => exact ih hdrafts

theorem map_snd_prefixDrafts (table : ScopeTable) :
    (prefixDrafts table).map Prod.snd = ((orderedPatterns table).map Prod.snd).eraseDups := by
  have hkeys : (prefixDrafts table).map Prod.snd = (patternsByScope table).keys := by
    rw [prefixDrafts, List.map_map]
    rfl
  have hcollect := Table.keys_foldl_alter Prod.snd
    (fun (pattern : Draft) (old : Option (List (List Char))) => old.getD [] ++ [pattern.1])
    (orderedPatterns table) .empty
  rw [hkeys]
  exact hcollect.trans (fresh_nil_left _)

/-- Among the prefix rules the one of the scope with the first pattern decides. -/
theorem firstDraft_prefixDrafts {word : List Char} :
    firstDraft (prefixDrafts table) word = some scope ↔ Admits table scope word ∧
      ∀ other, Admits table other word → place table scope ≤ place table other := by
  classical
  have hmem {scope : String} (h : Admits table scope word) :
      scope ∈ (orderedPatterns table).map Prod.snd := by
    obtain ⟨item, hitem, rfl, -⟩ := exists_orderedPatterns_iff.mpr h
    exact List.mem_map.mpr ⟨item, hitem, rfl⟩
  have haccepts : ∀ draft ∈ prefixDrafts table,
      accepts draft.1 word = decide (Admits table draft.2 word) := by
    intro draft hdraft
    rw [Bool.eq_iff_iff, decide_eq_true_iff, ← exists_orderedPatterns_iff]
    exact (joins_prefixDrafts table).accepts_iff (fun _ => row_orderedPatterns) hdraft
  rw [firstDraft_eq_find? (q := fun scope => decide (Admits table scope word)) haccepts,
    map_snd_prefixDrafts, find?_eraseDups, find?_eq_some_iff_idxOf]
  simp only [decide_eq_true_iff]
  constructor
  · rintro ⟨-, hscope, hfirst⟩
    exact ⟨hscope, fun other hother => hfirst other (hmem hother) hother⟩
  · rintro ⟨hscope, hfirst⟩
    exact ⟨hmem hscope, hscope, fun other _ hother => hfirst other hother⟩

/-- A keyword's own scope decides. For another word it is the admitted scope whose patterns begin
first. -/
theorem firstScope_eq_some_iff (h : rules table = .ok found) :
    firstScope found word = some scope ↔ table.keywords.get? word = some scope ∨
      (table.keywords.get? word = none ∧ Admits table scope word.toList ∧
        ∀ other, Admits table other word.toList → place table scope ≤ place table other) := by
  rw [firstScope_eq h, firstDraft_keywordDrafts, Option.or_eq_some_iff, firstDraft_prefixDrafts]

end Lexicolor.Clangd
