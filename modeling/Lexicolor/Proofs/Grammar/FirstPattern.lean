import Mathlib
import Lexicolor.Proofs.Grammar.WholeWords
import Lexicolor.Proofs.Grouping

/-!
# The first pattern of a generated grammar

Patterns for keywords come first, and a keyword stands in one of them only. What
is left goes to the longest prefix that the word goes on after.
-/

namespace Lexicolor.Grammar

variable {prefixes : PrefixTable} {keywords : KeywordTable} {word scope : String}
variable {words : List (List Char)} {pattern : GrammarPattern}

/-- The first pattern that matches the word as a whole. -/
def firstPattern? (grammar : Grammar) (word : String) : Option GrammarPattern :=
  grammar.patterns.find? fun pattern => pattern.takes word

/-- The scope that the first pattern for the word carries. -/
def firstScope? (grammar : Grammar) (word : String) : Option String :=
  (firstPattern? grammar word).bind GrammarPattern.scope?

/-- No scope of a classification is empty. -/
theorem head?_ofClassification (classification : String) :
    (Scope.ofClassification classification).toList.head? = some 'm' := by
  rw [Scope.ofClassification, String.toList_ofList]
  unfold Scope.nameOf
  rfl

theorem scope?_captured (text : List Char) (scope : String) :
    (captured text scope).scope? = some scope := rfl

/-! ## Keywords by scope -/

/-- The word is a keyword but no example, and its classification has the scope. -/
def Lists (keywords : KeywordTable) (word scope : String) : Prop :=
  ∃ entry, keywords.get? word = some entry ∧ entry.isExample = false ∧
    entry.classification ≠ "" ∧ Scope.ofClassification entry.classification = scope

theorem Lists.unique {scope' : String} (h : Lists keywords word scope)
    (h' : Lists keywords word scope') : scope = scope' := by
  obtain ⟨entry, hget, -, -, rfl⟩ := h
  obtain ⟨entry', hget', -, -, rfl⟩ := h'
  cases hget.symm.trans hget'
  rfl

/-- The keywords that a pattern is made for. -/
def listed (keywords : KeywordTable) : List (String × KeywordEntry) :=
  keywords.entries.filter fun e => e.2.isExample = false ∧ e.2.classification ≠ ""

theorem mem_listed {entry : KeywordEntry} : (word, entry) ∈ listed keywords ↔
    keywords.get? word = some entry ∧ entry.isExample = false ∧ entry.classification ≠ "" := by
  rw [listed, List.mem_filter, SortedTable.get?_eq_some_iff, decide_eq_true_iff]

theorem get?_keywordsByScope (keywords : KeywordTable) (scope : String) :
    (keywordsByScope keywords).get? scope =
      collected (fun e => Scope.ofClassification e.2.classification) (fun e => e.1.toList)
        (listed keywords) scope := by
  rw [← Table.get?_collect, listed, List.foldl_filter, keywordsByScope]
  congr 2
  funext groups ⟨keyword, entry⟩
  cases hexample : entry.isExample <;> by_cases hclass : entry.classification = "" <;>
    simp [hexample, hclass]

theorem mem_keywordsByScope (h : (keywordsByScope keywords).get? scope = some words) :
    words ≠ [] ∧ ∀ word : String, word.toList ∈ words ↔ Lists keywords word scope := by
  rw [get?_keywordsByScope] at h
  obtain ⟨hne, hmem⟩ := collected_eq_some h
  refine ⟨hne, fun word => (hmem _).trans ?_⟩
  constructor
  · rintro ⟨⟨keyword, entry⟩, hentry, hscope, hword⟩
    obtain rfl : keyword = word := String.toList_inj.mp hword
    obtain ⟨hget, hexample, hclass⟩ := mem_listed.mp hentry
    exact ⟨entry, hget, hexample, hclass, hscope⟩
  · rintro ⟨entry, hget, hexample, hclass, hscope⟩
    exact ⟨_, mem_listed.mpr ⟨hget, hexample, hclass⟩, hscope, rfl⟩

theorem Lists.exists_words (h : Lists keywords word scope) :
    ∃ words, (keywordsByScope keywords).get? scope = some words := by
  obtain ⟨entry, hget, hexample, hclass, hscope⟩ := h
  rw [← Option.isSome_iff_exists, get?_keywordsByScope, isSome_collected]
  exact ⟨_, mem_listed.mpr ⟨hget, hexample, hclass⟩, hscope⟩

/-! ## The patterns in order -/

/-- The patterns for the keywords of each scope. -/
def keywordPatterns (keywords : KeywordTable) : List GrammarPattern :=
  (keywordsByScope keywords).entries.map fun (scope, words) => captured (keywordPattern words) scope

/-- The patterns for the prefixes, longer ones first. -/
def prefixPatterns (prefixes : PrefixTable) : List GrammarPattern :=
  (Text.longestFirst (fun entry => entry.1.toList) prefixes.entries).map fun (name, entry) =>
    captured (prefixPattern name.toList) (Scope.ofClassification entry.classification)

theorem patterns_generate (prefixes : PrefixTable) (keywords : KeywordTable) :
    (generate prefixes keywords).patterns = keywordPatterns keywords ++ prefixPatterns prefixes :=
  rfl

theorem mem_keywordPatterns : pattern ∈ keywordPatterns keywords ↔ ∃ scope words,
    (keywordsByScope keywords).get? scope = some words ∧
      captured (keywordPattern words) scope = pattern := by
  simp only [keywordPatterns, List.mem_map, Prod.exists, Table.get?_eq_some_iff]

theorem mem_prefixPatterns : pattern ∈ prefixPatterns prefixes ↔ ∃ name entry,
    prefixes.get? name = some entry ∧
      captured (prefixPattern name.toList) (Scope.ofClassification entry.classification) =
        pattern := by
  simp only [prefixPatterns, List.mem_map, Text.mem_longestFirst, Prod.exists,
    SortedTable.get?_eq_some_iff]

/-- Every pattern of a generated grammar can be read. -/
theorem exists_matches (h : pattern ∈ (generate prefixes keywords).patterns) :
    ∃ L, pattern.Matches L := by
  rcases List.mem_append.mp h with h | h
  · obtain ⟨scope, words, hget, rfl⟩ := mem_keywordPatterns.mp h
    exact ⟨_, matches_keywordPattern (mem_keywordsByScope hget).1 scope⟩
  · obtain ⟨name, entry, -, rfl⟩ := mem_prefixPatterns.mp h
    exact ⟨_, matches_prefixPattern name.toList _⟩

/-- The pattern for the keywords of a scope takes those of them that are like words. -/
theorem takes_keywordPattern (hget : (keywordsByScope keywords).get? scope = some words) :
    (captured (keywordPattern words) scope).takes word ↔
      Lists keywords word scope ∧ WordLike word.toList := by
  obtain ⟨hne, hmem⟩ := mem_keywordsByScope hget
  rw [(matches_keywordPattern hne scope).takes_iff, ← hmem]
  rfl

theorem wordLike_of_takes (h : pattern ∈ (generate prefixes keywords).patterns)
    (htakes : pattern.takes word) : WordLike word.toList := by
  rcases List.mem_append.mp h with h | h
  · obtain ⟨scope, words, hget, rfl⟩ := mem_keywordPatterns.mp h
    exact ((takes_keywordPattern hget).mp htakes).2
  · obtain ⟨name, entry, -, rfl⟩ := mem_prefixPatterns.mp h
    obtain ⟨-, hhead, hlast⟩ := (matches_prefixPattern name.toList _).takes_iff.mp htakes
    exact ⟨.inr hhead, hlast⟩

/-- What is found is the only member that would do. -/
theorem find?_eq_some {α : Type} {q : α → Bool} {l : List α} {a : α} (hmem : a ∈ l) (ha : q a)
    (honly : ∀ b ∈ l, q b → b = a) : l.find? q = some a := by
  have hsome : (l.find? q).isSome := List.find?_isSome.mpr ⟨a, hmem, ha⟩
  obtain ⟨b, hb⟩ := Option.isSome_iff_exists.mp hsome
  rw [hb, honly b (List.mem_of_find?_eq_some hb) (List.find?_some hb)]

/-- A keyword that is like a word has the pattern for the keywords of its scope. -/
theorem firstPattern?_of_lists (prefixes : PrefixTable) (h : Lists keywords word scope)
    (hword : WordLike word.toList) :
    ∃ words, (keywordsByScope keywords).get? scope = some words ∧
      firstPattern? (generate prefixes keywords) word =
        some (captured (keywordPattern words) scope) := by
  obtain ⟨words, hget⟩ := h.exists_words
  refine ⟨words, hget, ?_⟩
  have hmem := mem_keywordPatterns.mpr ⟨scope, words, hget, rfl⟩
  have htakes : (captured (keywordPattern words) scope).takes word :=
    (takes_keywordPattern hget).mpr ⟨h, hword⟩
  -- the keyword is in the pattern of one scope only
  have honly : ∀ pattern ∈ keywordPatterns keywords, pattern.takes word →
      pattern = captured (keywordPattern words) scope := by
    intro pattern hpattern htakes
    obtain ⟨scope', words', hget', rfl⟩ := mem_keywordPatterns.mp hpattern
    cases ((takes_keywordPattern hget').mp htakes).1.unique h
    cases hget'.symm.trans hget
    rfl
  rw [firstPattern?, patterns_generate, List.find?_append, find?_eq_some hmem htakes honly,
    Option.some_or]

/-- Without a keyword pattern the patterns for prefixes are left. -/
theorem firstPattern?_of_not_lists (h : ∀ scope, ¬Lists keywords word scope) :
    firstPattern? (generate prefixes keywords) word =
      (prefixPatterns prefixes).find? fun pattern => pattern.takes word := by
  have hnone : ((keywordPatterns keywords).find? fun p => p.takes word) = none := by
    apply List.find?_eq_none.mpr
    intro pattern hpattern htakes
    obtain ⟨scope, words, hget, rfl⟩ := mem_keywordPatterns.mp hpattern
    exact h scope ((takes_keywordPattern hget).mp htakes).1
  rw [firstPattern?, patterns_generate, List.find?_append, hnone, Option.none_or]

end Lexicolor.Grammar
