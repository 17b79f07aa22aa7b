import Mathlib
import Lexicolor.Proofs.Clangd.Encoding
import Lexicolor.Proofs.Clangd.PrefixLanguage

/-!
# What the rules match

Every rule is for one scope and matches the words of the keywords or patterns of
that scope, no more and no less: escapes, alternatives and groups neither lose
nor add a word.
-/

namespace Lexicolor.Clangd

open Pattern

variable {table : ScopeTable} {scope : String} {word : List Char} {texts : List (List Char)}
variable {drafts items : List Draft} {found : List Rule}

/-- The pattern with this text matches somewhere in the word. -/
def accepts (text word : List Char) : Bool :=
  match Pattern.read text with
  | .ok p => p.isIn word
  | .error _ => false

/-- The rule applies to the word. -/
def Rule.accepts (rule : Rule) (word : String) : Bool :=
  Clangd.accepts rule.regex.toList word.toList

/-! ## Alternatives -/

/-- Whole identifiers match alternatives when they match one of them. -/
theorem read_anchored (hne : texts ≠ []) (h : ∀ text ∈ texts, ∃ L, Row 6 text L) :
    ∃ p, Pattern.read (anchored texts) = .ok p ∧
      ∀ word, p.isIn word ↔ ∃ text ∈ texts, word ∈ words text := by
  have hrow : ∀ text ∈ texts, Row 6 text (words text) := by
    intro text htext
    obtain ⟨L, hL⟩ := h text htext
    rwa [words_row hL (by decide)]
  unfold anchored
  simp only
  split
  next hbar =>
    have hgroup := read_whole (part_group words hne hrow).row (by decide)
    simpa [mem_sum] using hgroup
  next hbar =>
    obtain ⟨text, rest, rfl⟩ := List.exists_cons_of_ne_nil hne
    cases rest with
    | nil => simpa [Text.join] using read_whole (hrow text List.mem_cons_self) (by decide)
    | cons next rest =>
        refine absurd ?_ hbar
        show '|' ∈ text ++ ('|' :: Text.join ['|'] (next :: rest))
        simp

/-! ## Drafts that join items -/

/-- Every draft joins the texts of all items with its scope, and no scope is left out. -/
structure Joins (drafts items : List Draft) : Prop where
  exists_texts : ∀ draft ∈ drafts, ∃ texts, texts ≠ [] ∧ draft.1 = anchored texts ∧
    ∀ text, text ∈ texts ↔ (text, draft.2) ∈ items
  exists_draft : ∀ item ∈ items, ∃ draft ∈ drafts, draft.2 = item.2

theorem Joins.exists_read (h : Joins drafts items) (hrow : ∀ item ∈ items, ∃ L, Row 6 item.1 L)
    {draft : Draft} (hdraft : draft ∈ drafts) : ∃ p, Pattern.read draft.1 = .ok p ∧
      ∀ word, p.isIn word ↔ ∃ item ∈ items, item.2 = draft.2 ∧ word ∈ words item.1 := by
  obtain ⟨texts, hne, htext, hmem⟩ := h.exists_texts draft hdraft
  obtain ⟨p, hread, hp⟩ := read_anchored hne fun text ht => hrow _ ((hmem text).mp ht)
  refine ⟨p, htext ▸ hread, fun word => (hp word).trans ?_⟩
  constructor
  · rintro ⟨text, ht, hword⟩
    exact ⟨_, (hmem text).mp ht, rfl, hword⟩
  · rintro ⟨⟨text, _⟩, hitem, rfl, hword⟩
    exact ⟨text, (hmem text).mpr hitem, hword⟩

theorem Joins.accepts_iff (h : Joins drafts items) (hrow : ∀ item ∈ items, ∃ L, Row 6 item.1 L)
    {draft : Draft} (hdraft : draft ∈ drafts) : accepts draft.1 word ↔
      ∃ item ∈ items, item.2 = draft.2 ∧ word ∈ words item.1 := by
  obtain ⟨p, hread, hp⟩ := h.exists_read hrow hdraft
  rw [accepts, hread]
  exact hp word

theorem Joins.exists_accepts_iff (h : Joins drafts items)
    (hrow : ∀ item ∈ items, ∃ L, Row 6 item.1 L) :
    (∃ draft ∈ drafts, draft.2 = scope ∧ accepts draft.1 word) ↔
      ∃ item ∈ items, item.2 = scope ∧ word ∈ words item.1 := by
  constructor
  · rintro ⟨draft, hdraft, rfl, haccepts⟩
    exact (h.accepts_iff hrow hdraft).mp haccepts
  · rintro ⟨item, hitem, rfl, hword⟩
    obtain ⟨draft, hdraft, hscope⟩ := h.exists_draft item hitem
    exact ⟨draft, hdraft, hscope, (h.accepts_iff hrow hdraft).mpr ⟨item, hitem, hscope.symm, hword⟩⟩

/-! ## Keywords -/

/-- The keywords as texts of patterns. -/
def keywordItems (table : ScopeTable) : List Draft :=
  table.keywords.entries.map fun (keyword, scope) => (escape keyword.toList, scope)

theorem get?_keywordsByScope (scope : String) : (keywordsByScope table).get? scope =
    collected Prod.snd Prod.fst table.keywords.entries scope :=
  SortedTable.get?_collect Prod.snd Prod.fst table.keywords.entries scope

theorem joins_keywordDrafts (table : ScopeTable) :
    Joins (keywordDrafts table) (keywordItems table) := by
  constructor
  · intro draft hdraft
    obtain ⟨⟨scope, keywords⟩, hentry, rfl⟩ := List.mem_map.mp hdraft
    rw [← SortedTable.get?_eq_some_iff, get?_keywordsByScope] at hentry
    obtain ⟨hne, hmem⟩ := collected_eq_some hentry
    refine ⟨_, ?_, rfl, fun text => ?_⟩
    · obtain ⟨keyword, hkeyword⟩ := List.exists_mem_of_ne_nil keywords hne
      exact List.ne_nil_of_mem (List.mem_map.mpr ⟨keyword, mem_ascending.mpr hkeyword, rfl⟩)
    · simp [keywordItems, mem_ascending, hmem]
  · intro item hitem
    obtain ⟨⟨keyword, scope⟩, hentry, rfl⟩ := List.mem_map.mp hitem
    have hsome : ((keywordsByScope table).get? scope).isSome := by
      rw [get?_keywordsByScope, isSome_collected]
      exact ⟨_, hentry, rfl⟩
    obtain ⟨keywords, hget⟩ := Option.isSome_iff_exists.mp hsome
    exact ⟨_, List.mem_map.mpr ⟨_, SortedTable.get?_eq_some_iff.mp hget, rfl⟩, rfl⟩

theorem row_keywordItems {item : Draft} (h : item ∈ keywordItems table) : ∃ L, Row 6 item.1 L := by
  obtain ⟨⟨keyword, scope⟩, -, rfl⟩ := List.mem_map.mp h
  exact ⟨_, (row_escape keyword.toList).mono (by decide)⟩

theorem exists_keywordItems_iff (word : String) :
    (∃ item ∈ keywordItems table, item.2 = scope ∧ word.toList ∈ words item.1) ↔
      table.keywords.get? word = some scope := by
  have hword (keyword : String) : word.toList ∈ words (escape keyword.toList) ↔ word = keyword := by
    rw [words_row (row_escape keyword.toList) (by decide), ← String.toList_inj]
    rfl
  rw [Table.get?_eq_some_iff]
  simp [keywordItems, hword]

/-! ## Prefixes -/

theorem get?_patternsByScope (scope : String) : (patternsByScope table).get? scope =
    collected Prod.snd Prod.fst (orderedPatterns table) scope :=
  Table.get?_collect Prod.snd Prod.fst (orderedPatterns table) scope

theorem joins_prefixDrafts (table : ScopeTable) :
    Joins (prefixDrafts table) (orderedPatterns table) := by
  constructor
  · intro draft hdraft
    obtain ⟨⟨scope, alternatives⟩, hentry, rfl⟩ := List.mem_map.mp hdraft
    rw [← Table.get?_eq_some_iff, get?_patternsByScope] at hentry
    obtain ⟨hne, hmem⟩ := collected_eq_some hentry
    refine ⟨alternatives, hne, rfl, fun text => ?_⟩
    simp [hmem]
  · intro item hitem
    have hsome : ((patternsByScope table).get? item.2).isSome := by
      rw [get?_patternsByScope, isSome_collected]
      exact ⟨item, hitem, rfl⟩
    obtain ⟨alternatives, hget⟩ := Option.isSome_iff_exists.mp hsome
    exact ⟨_, List.mem_map.mpr ⟨_, Table.get?_eq_some_iff.mp hget, rfl⟩, rfl⟩

theorem mem_orderedPatterns {draft : Draft} : draft ∈ orderedPatterns table ↔
    ∃ name entry, table.prefixes.get? name = some entry ∧ draft ∈ prefixPatterns name entry := by
  simp only [orderedPatterns, Text.longestFirst, List.mem_flatMap, List.mem_mergeSort, Prod.exists,
    Table.get?_eq_some_iff]

theorem row_orderedPatterns {item : Draft} (h : item ∈ orderedPatterns table) :
    ∃ L, Row 6 item.1 L := by
  obtain ⟨name, entry, -, hitem⟩ := mem_orderedPatterns.mp h
  exact row_of_mem_prefixPatterns hitem

/-- Some prefix of the table offers the scope for the word. -/
def Admits (table : ScopeTable) (scope : String) (word : List Char) : Prop :=
  ∃ name entry, table.prefixes.get? name = some entry ∧ Offers name entry scope word

theorem exists_orderedPatterns_iff :
    (∃ item ∈ orderedPatterns table, item.2 = scope ∧ word ∈ words item.1) ↔
      Admits table scope word := by
  simp only [mem_orderedPatterns, Admits, ← exists_mem_prefixPatterns_iff]
  constructor
  · rintro ⟨item, ⟨name, entry, hget, hitem⟩, hword⟩
    exact ⟨name, entry, hget, item, hitem, hword⟩
  · rintro ⟨name, entry, hget, item, hitem, hword⟩
    exact ⟨item, ⟨name, entry, hget, hitem⟩, hword⟩

/-! ## All rules -/

theorem rules_eq_planned (h : rules table = .ok found) :
    ∃ count, (scopesOf (allDrafts table)).length ≤ 2 ^ count - 1 ∧
      found = planned count (allDrafts table) := by
  have hle : (scopesOf (allDrafts table)).length ≤ 511 := by
    by_contra hlt
    rw [rules, assignModifiers_of_lt (Nat.lt_of_not_le hlt)] at h
    cases h
  rw [rules, assignModifiers_of_le hle] at h
  cases h
  exact ⟨_, le_leastCount _ _, rfl⟩

/-- The rules are those of the drafts in order. -/
theorem map_of_rules (h : rules table = .ok found) :
    found.map (fun r => (r.regex.toList, r.scope)) = allDrafts table := by
  obtain ⟨count, -, rfl⟩ := rules_eq_planned h
  exact map_ruleBy _ _

theorem exists_read_of_mem_allDrafts {draft : Draft} (h : draft ∈ allDrafts table) :
    ∃ p, Pattern.read draft.1 = .ok p := by
  rcases List.mem_append.mp h with h | h
  · obtain ⟨p, hread, -⟩ := (joins_keywordDrafts table).exists_read (fun _ => row_keywordItems) h
    exact ⟨p, hread⟩
  · obtain ⟨p, hread, -⟩ := (joins_prefixDrafts table).exists_read (fun _ => row_orderedPatterns) h
    exact ⟨p, hread⟩

theorem exists_keywordDrafts_iff (word : String) :
    (∃ draft ∈ keywordDrafts table, draft.2 = scope ∧ accepts draft.1 word.toList) ↔
      table.keywords.get? word = some scope := by
  rw [(joins_keywordDrafts table).exists_accepts_iff fun _ => row_keywordItems,
    exists_keywordItems_iff]

theorem exists_prefixDrafts_iff :
    (∃ draft ∈ prefixDrafts table, draft.2 = scope ∧ accepts draft.1 word) ↔
      Admits table scope word := by
  rw [(joins_prefixDrafts table).exists_accepts_iff fun _ => row_orderedPatterns,
    exists_orderedPatterns_iff]

/-- All rules are patterns, and those of a scope apply exactly to its keywords and to the words
that a prefix offers the scope for. -/
theorem rules_accept_iff (h : rules table = .ok found) :
    (∀ r ∈ found, ∃ p, Pattern.read r.regex.toList = .ok p) ∧
    ∀ scope word, (∃ r ∈ found, r.scope = scope ∧ r.accepts word) ↔
      table.keywords.get? word = some scope ∨ Admits table scope word.toList := by
  have hmap := map_of_rules h
  constructor
  · intro r hr
    have hdraft : (r.regex.toList, r.scope) ∈ allDrafts table := by
      rw [← hmap]
      exact List.mem_map.mpr ⟨r, hr, rfl⟩
    exact exists_read_of_mem_allDrafts hdraft
  · intro scope word
    have hdrafts : (∃ r ∈ found, r.scope = scope ∧ r.accepts word) ↔
        ∃ draft ∈ allDrafts table, draft.2 = scope ∧ accepts draft.1 word.toList := by
      rw [← hmap]
      simp [Rule.accepts]
    rw [hdrafts, allDrafts, ← exists_keywordDrafts_iff, ← exists_prefixDrafts_iff]
    simp only [List.mem_append, or_and_right, exists_or]

/-- A keyword with a bar, two patterns in one rule, and a variable prefix. -/
def symbols : ScopeTable :=
  ⟨⟨[("a|b", "operator"), ("", "operator")], by decide⟩,
    ⟨[("m_", ⟨"member", true⟩), ("CF", ⟨"member", false⟩)], by decide⟩, []⟩

theorem symbols_accept : ∃ found, rules symbols = .ok found ∧
    (∀ r ∈ found, ∃ p, Pattern.read r.regex.toList = .ok p) ∧
    ∀ scope word, (∃ r ∈ found, r.scope = scope ∧ r.accepts word) ↔
      symbols.keywords.get? word = some scope ∨ Admits symbols scope word.toList := by
  obtain ⟨found, hfound⟩ : ∃ found, rules symbols = .ok found := ⟨_, assignModifiers_of_le (by cbv)⟩
  exact ⟨found, hfound, rules_accept_iff hfound⟩

end Lexicolor.Clangd
