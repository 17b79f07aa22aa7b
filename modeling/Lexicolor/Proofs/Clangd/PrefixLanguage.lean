import Mathlib
import Lexicolor.Classifier
import Lexicolor.Clangd.Rule
import Lexicolor.Proofs.Pattern.Notation

/-!
# The languages of patterns

Every pattern that a rule joins is a row with a language of its own, and a rule
for several patterns matches exactly the words of all their languages. For the
prefixes the languages are those of the naming convention.
-/

namespace Lexicolor.Clangd

open Computability Pattern

variable {name scope : String} {entry : PrefixScope} {word : List Char}

/-! ## The naming convention -/

/-- A capital and then letters, digits and underscores. -/
def capitalized : Language Char := anyOf Char.isUpper * (anyOf Text.isIdentChar)∗

/-- The words between a prefix and the capital. -/
def conceptWords (isVariable : Bool) : Language Char :=
  if isVariable then 1 + anyOf Identifier.isConcept else 1

/-- The prefix offers the scope for the word. The prefixes `E` and `CF` have two scopes each,
whatever their kind. -/
inductive Offers (name : String) (entry : PrefixScope) : String → List Char → Prop
  | ordinary {word : List Char} : name ≠ "E" → name ≠ "CF" →
      word ∈ {name.toList} * (conceptWords entry.isVariable * capitalized) →
      Offers name entry entry.scope word
  | enumerator {word : List Char} : name = "E" →
      word ∈ {['E']} * (capitalized * ({['_']} * (anyOf Text.isIdentChar)∗)) →
      Offers name entry entry.scope word
  | enumeration {word : List Char} : name = "E" →
      word ∈ {['E']} * (anyOf Char.isUpper * (anyOf Char.isAlphanum)∗) →
      Offers name entry Scope.enumeration word
  | reference {word : List Char} : name = "CF" →
      word ∈ {['C', 'F']} * (capitalized * {['R', 'e', 'f']}) → Offers name entry Scope.type word
  | foundation {word : List Char} : name = "CF" → word ∈ {['C', 'F']} * capitalized →
      Offers name entry entry.scope word

/-! ## Patterns for prefixes -/

theorem part_capital : Part true 2 "[A-Z]".toList (anyOf Char.isUpper) := by
  refine part_spans [('A', 'Z')] (by decide) (by decide) (by decide) fun c => ?_
  simp [Char.isUpper, Char.le_def]

theorem part_alphanum : Part true 2 "[A-Za-z0-9]".toList (anyOf Char.isAlphanum) := by
  refine part_spans [('A', 'Z'), ('a', 'z'), ('0', '9')] (by decide) (by decide) (by decide)
    fun c => ?_
  simp [Char.isAlphanum, Char.isAlpha, Char.isUpper, Char.isLower, Char.isDigit, Char.le_def,
    Bool.or_assoc]

theorem part_identChar : Part true 2 "[A-Za-z0-9_]".toList (anyOf Text.isIdentChar) :=
  part_spans Span.identChars (by decide) (by decide) (by decide) Span.any_identChars

theorem part_concept : Part true 2 "[binpfro]".toList (anyOf Identifier.isConcept) := by
  refine part_spans ("binpfro".toList.map fun c => (c, c)) (by decide) (by decide) (by decide)
    fun c => ?_
  simp [Identifier.isConcept, Span.le_and_le]

/-- The notation for a capital and what may follow. -/
theorem row_capitalized : Row 3 "[A-Z][A-Za-z0-9_]*".toList capitalized :=
  (part_capital.row.mono (by decide)).append part_identChar.star.row

theorem row_conceptual : Row 3 "[binpfro]?[A-Z][A-Za-z0-9_]*".toList
    ((1 + anyOf Identifier.isConcept) * capitalized) :=
  part_concept.optional.row.append row_capitalized

/-- A word in front of a row. -/
theorem row_word {depth : Nat} {text : List Char} {L : Language Char} (word : List Char)
    (h : Row depth text L) : Row depth (escape word ++ text) ({word} * L) :=
  ((row_escape word).mono (Nat.zero_le depth)).append h

theorem row_enumerator : Row 6 "E[A-Z][A-Za-z0-9_]*_[A-Za-z0-9_]*".toList
    ({['E']} * (capitalized * ({['_']} * (anyOf Text.isIdentChar)∗))) :=
  (row_word ['E'] (row_capitalized.append (row_word ['_'] part_identChar.star.row))).mono
    (by decide)

theorem row_enumeration : Row 6 "E[A-Z][A-Za-z0-9]*".toList
    ({['E']} * (anyOf Char.isUpper * (anyOf Char.isAlphanum)∗)) :=
  (row_word ['E'] ((part_capital.row.mono (by decide)).append part_alphanum.star.row)).mono
    (by decide)

theorem row_reference : Row 6 "CF[A-Z][A-Za-z0-9_]*Ref".toList
    ({['C', 'F']} * (capitalized * {['R', 'e', 'f']})) :=
  (row_word ['C', 'F'] (row_capitalized.append
    ((row_escape ['R', 'e', 'f']).mono (by decide)))).mono (by decide)

theorem row_foundation : Row 6 "CF[A-Z][A-Za-z0-9_]*".toList ({['C', 'F']} * capitalized) :=
  (row_word ['C', 'F'] row_capitalized).mono (by decide)

theorem row_variable (name : List Char) :
    Row 6 (escape name ++ "([binpfro]?[A-Z][A-Za-z0-9_]*)".toList)
      ({name} * ((1 + anyOf Identifier.isConcept) * capitalized)) := by
  have h := (part_group (fun _ => (1 + anyOf Identifier.isConcept) * capitalized)
    (List.cons_ne_nil "[binpfro]?[A-Z][A-Za-z0-9_]*".toList [])
    (List.forall_mem_singleton.mpr row_conceptual)).row
  simp only [List.map_cons, List.map_nil, List.sum_cons, List.sum_nil, add_zero] at h
  exact row_word name h

theorem row_plain (name : List Char) :
    Row 6 (escape name ++ "[A-Z][A-Za-z0-9_]*".toList) ({name} * (1 * capitalized)) := by
  rw [one_mul]
  exact (row_word name row_capitalized).mono (by decide)

/-- The pattern of a prefix that has no rules of its own. -/
theorem row_ordinary (name : String) (isVariable : Bool) :
    Row 6 (escape name.toList ++ (if isVariable then "([binpfro]?[A-Z][A-Za-z0-9_]*)".toList
      else "[A-Z][A-Za-z0-9_]*".toList))
      ({name.toList} * (conceptWords isVariable * capitalized)) := by
  cases isVariable
  · exact row_plain name.toList
  · exact row_variable name.toList

theorem prefixPatterns_ordinary (hE : name ≠ "E") (hCF : name ≠ "CF") (entry : PrefixScope) :
    prefixPatterns name entry = [(escape name.toList ++
      (if entry.isVariable then "([binpfro]?[A-Z][A-Za-z0-9_]*)".toList
        else "[A-Z][A-Za-z0-9_]*".toList), entry.scope)] := by
  rw [prefixPatterns, if_neg hE, if_neg hCF]
  split <;> rfl

theorem row_of_mem_prefixPatterns {draft : Draft} (h : draft ∈ prefixPatterns name entry) :
    ∃ L, Row 6 draft.1 L := by
  by_cases hE : name = "E"
  · rw [prefixPatterns, if_pos hE] at h
    simp only [List.mem_cons, List.not_mem_nil, or_false] at h
    rcases h with rfl | rfl
    · exact ⟨_, row_enumerator⟩
    · exact ⟨_, row_enumeration⟩
  by_cases hCF : name = "CF"
  · rw [prefixPatterns, if_neg hE, if_pos hCF] at h
    simp only [List.mem_cons, List.not_mem_nil, or_false] at h
    rcases h with rfl | rfl
    · exact ⟨_, row_reference⟩
    · exact ⟨_, row_foundation⟩
  · rw [prefixPatterns_ordinary hE hCF] at h
    cases List.mem_singleton.mp h
    exact ⟨_, row_ordinary name entry.isVariable⟩

theorem offers_enum_iff : Offers "E" entry scope word ↔
    entry.scope = scope ∧
        word ∈ {['E']} * (capitalized * ({['_']} * (anyOf Text.isIdentChar)∗)) ∨
      Scope.enumeration = scope ∧
        word ∈ {['E']} * (anyOf Char.isUpper * (anyOf Char.isAlphanum)∗) := by
  constructor
  · intro h
    cases h with
    | ordinary hE => exact absurd rfl hE
    | enumerator _ hword => exact .inl ⟨rfl, hword⟩
    | enumeration _ hword => exact .inr ⟨rfl, hword⟩
    | reference hCF => exact absurd hCF (by decide)
    | foundation hCF => exact absurd hCF (by decide)
  · rintro (⟨rfl, hword⟩ | ⟨rfl, hword⟩)
    · exact .enumerator rfl hword
    · exact .enumeration rfl hword

theorem offers_foundation_iff : Offers "CF" entry scope word ↔
    Scope.type = scope ∧ word ∈ {['C', 'F']} * (capitalized * {['R', 'e', 'f']}) ∨
      entry.scope = scope ∧ word ∈ {['C', 'F']} * capitalized := by
  constructor
  · intro h
    cases h with
    | ordinary _ hCF => exact absurd rfl hCF
    | enumerator hE => exact absurd hE (by decide)
    | enumeration hE => exact absurd hE (by decide)
    | reference _ hword => exact .inl ⟨rfl, hword⟩
    | foundation _ hword => exact .inr ⟨rfl, hword⟩
  · rintro (⟨rfl, hword⟩ | ⟨rfl, hword⟩)
    · exact .reference rfl hword
    · exact .foundation rfl hword

theorem offers_ordinary_iff (hE : name ≠ "E") (hCF : name ≠ "CF") :
    Offers name entry scope word ↔
      entry.scope = scope ∧
        word ∈ {name.toList} * (conceptWords entry.isVariable * capitalized) := by
  constructor
  · intro h
    cases h with
    | ordinary _ _ hword => exact ⟨rfl, hword⟩
    | enumerator h => exact absurd h hE
    | enumeration h => exact absurd h hE
    | reference h => exact absurd h hCF
    | foundation h => exact absurd h hCF
  · rintro ⟨rfl, hword⟩
    exact .ordinary hE hCF hword

/-- A prefix offers a scope for the words of its patterns with that scope. -/
theorem exists_mem_prefixPatterns_iff :
    (∃ draft ∈ prefixPatterns name entry, draft.2 = scope ∧ word ∈ words draft.1) ↔
      Offers name entry scope word := by
  by_cases hE : name = "E"
  · subst hE
    rw [prefixPatterns, if_pos rfl, offers_enum_iff]
    simp only [List.mem_cons, List.not_mem_nil, or_false, exists_eq_or_imp, exists_eq_left,
      words_row row_enumerator (by decide), words_row row_enumeration (by decide)]
  by_cases hCF : name = "CF"
  · subst hCF
    rw [prefixPatterns, if_neg hE, if_pos rfl, offers_foundation_iff]
    simp only [List.mem_cons, List.not_mem_nil, or_false, exists_eq_or_imp, exists_eq_left,
      words_row row_reference (by decide), words_row row_foundation (by decide)]
  · rw [prefixPatterns_ordinary hE hCF, offers_ordinary_iff hE hCF]
    simp only [List.mem_singleton, exists_eq_left,
      words_row (row_ordinary name entry.isVariable) (by decide)]

end Lexicolor.Clangd
