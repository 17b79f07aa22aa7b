import Mathlib
import Lexicolor.Proofs.Combination
import Lexicolor.Proofs.Grammar.Coverage

/-!
# The accounts of a coverage report

Every keyword but the empty one is counted as covered or listed as missed, once
and never both. So the number of missed keywords is what the lists hold, and one
more where the empty text is a keyword. A report is clean if nothing is missed or
amiss.
-/

namespace Lexicolor.Grammar

variable {keywords : KeywordTable} {classifications : ClassificationTable} {grammar : Grammar}
variable {classification : String} {words : List String}

/-! ## Patterns -/

/-- Patterns one after the other: each one with a text is compiled or told of as invalid. -/
inductive Compiles : List GrammarPattern → List (Pattern × Option String) →
    List (String × PatternError) → Prop
  | nil : Compiles [] [] []
  | textless {pattern patterns compiled invalid} (htext : pattern.regex = none)
      (h : Compiles patterns compiled invalid) : Compiles (pattern :: patterns) compiled invalid
  | compiled {pattern patterns compiled invalid regex p} (htext : pattern.regex = some regex)
      (hread : wholeWord regex = .ok p) (h : Compiles patterns compiled invalid) :
      Compiles (pattern :: patterns) ((p, pattern.scope?) :: compiled) invalid
  | invalid {pattern patterns compiled invalid regex e} (htext : pattern.regex = some regex)
      (hread : wholeWord regex = .error e) (h : Compiles patterns compiled invalid) :
      Compiles (pattern :: patterns) compiled ((regex, e) :: invalid)

theorem compiles_matchers (grammar : Grammar) :
    Compiles grammar.patterns (matchers grammar) (invalidPatterns grammar) := by
  unfold matchers invalidPatterns
  induction grammar.patterns with
  | nil => exact .nil
  | cons pattern patterns ih =>
      rw [List.filterMap_cons, List.filterMap_cons]
      cases htext : pattern.regex with
      | none => exact .textless htext ih
      | some regex =>
          cases hread : wholeWord regex with
          | ok p => simpa [hread] using .compiled htext hread ih
          | error e => simpa [hread] using .invalid htext hread ih

/-! ## Keywords -/

/-- The keywords that have a scope. -/
def coveredWords (keywords : KeywordTable) (scopeOf : String → Option String) : List String :=
  keywords.keys.filter fun word => word ≠ "" ∧ (scopeOf word).isSome

/-- What a report tells of the keywords, where `scopeOf` is what the patterns give a keyword. -/
structure Balances (keywords : KeywordTable) (classifications : ClassificationTable)
    (scopeOf : String → Option String) (report : Coverage) : Prop where
  covered_eq : report.covered = (coveredWords keywords scopeOf).length
  /-- Covered and missed keywords are all but the empty one, each once. -/
  perm : (coveredWords keywords scopeOf ++ report.missed.values.flatten).Perm
    (keywords.keys.filter fun word => word ≠ "")
  /-- A missed keyword is listed under its own classification. -/
  own : ∀ classification words, report.missed.get? classification = some words →
    ∀ word ∈ words, ∃ entry, keywords.get? word = some entry ∧
      entry.classification = classification
  ascending : ∀ classification words, report.missed.get? classification = some words →
    words ≠ [] ∧ words.Pairwise (· < ·)
  /-- Classifications stand in the order of their first missed keywords. -/
  in_order : report.missed.entries.Pairwise fun earlier later =>
    ∀ first ∈ earlier.2.head?, ∀ second ∈ later.2.head?, first < second
  total_eq : report.total = keywords.size
  sum_eq : report.total = report.covered + (report.missed.values.map List.length).sum +
    if "" ∈ keywords.keys then 1 else 0
  missedCount_eq : report.missedCount + report.covered = report.total
  mem_mismatches : ∀ m, m ∈ report.mismatches ↔ m.keyword ≠ "" ∧
    ∃ entry, keywords.get? m.keyword = some entry ∧ m.classification = entry.classification ∧
      scopeOf m.keyword = some m.got ∧
      classifications.get? m.classification = some m.expected ∧ m.got ≠ m.expected
  mismatches_ascending : (report.mismatches.map Mismatch.keyword).Pairwise (· < ·)

theorem map_keyword_verdicts (keywords : KeywordTable) (grammar : Grammar) :
    (verdicts keywords grammar).map Verdict.keyword =
      keywords.keys.filter fun word => word ≠ "" := by
  rw [verdicts, verdictsOn, List.map_map, SortedTable.keys, List.filter_map]
  rfl

theorem pairwise_verdicts (keywords : KeywordTable) (grammar : Grammar) :
    ((verdicts keywords grammar).map Verdict.keyword).Pairwise (· < ·) := by
  rw [map_keyword_verdicts]
  exact keywords.sorted.filter _

/-- The verdicts with a scope are those on the covered keywords. -/
theorem map_keyword_covered (keywords : KeywordTable) (grammar : Grammar) :
    ((verdicts keywords grammar).filter fun v => v.got.isSome).map Verdict.keyword =
      coveredWords keywords (firstScope? grammar) := by
  rw [verdicts, verdictsOn, List.filter_map, List.map_map, List.filter_filter, coveredWords,
    SortedTable.keys, List.filter_map]
  refine congrArg _ (List.filter_congr fun e _ => ?_)
  simp [verdictOn, Bool.and_comm]

/-- The keywords without a scope, in order. -/
def missedWords (keywords : KeywordTable) (grammar : Grammar) : List String :=
  ((verdicts keywords grammar).filter fun v => v.got.isNone).map Verdict.keyword

theorem pairwise_missedWords (keywords : KeywordTable) (grammar : Grammar) :
    (missedWords keywords grammar).Pairwise (· < ·) :=
  (pairwise_verdicts keywords grammar).sublist (List.filter_sublist.map _)

theorem perm_coveredWords_missedWords (keywords : KeywordTable) (grammar : Grammar) :
    (coveredWords keywords (firstScope? grammar) ++ missedWords keywords grammar).Perm
      (keywords.keys.filter fun word => word ≠ "") := by
  rw [← map_keyword_covered, missedWords, ← List.map_append, ← map_keyword_verdicts]
  refine List.Perm.map _ ?_
  simpa using List.filter_append_perm (fun v : Verdict => v.got.isSome) _

theorem perm_flatten_missed :
    ((coverage keywords grammar classifications).missed.values.flatten).Perm
      (missedWords keywords grammar) := by
  rw [coverage_eq]
  exact Table.perm_flatten_collect Verdict.classification Verdict.keyword _ .empty

theorem own_of_missed (h : (coverage keywords grammar classifications).missed.get? classification =
      some words) :
    ∀ word ∈ words, ∃ entry, keywords.get? word = some entry ∧
      entry.classification = classification := by
  intro word hword
  obtain ⟨v, hv, hclass, rfl⟩ := ((collected_eq_some (get?_missed.symm.trans h)).2 word).mp hword
  obtain ⟨-, entry, hentry, hown, -⟩ := mem_verdicts.mp (List.mem_filter.mp hv).1
  exact ⟨entry, hentry, hown.symm.trans hclass⟩

theorem ascending_of_missed
    (h : (coverage keywords grammar classifications).missed.get? classification = some words) :
    words ≠ [] ∧ words.Pairwise (· < ·) := by
  have hcollected := get?_missed.symm.trans h
  exact ⟨(collected_eq_some hcollected).1,
    (pairwise_missedWords keywords grammar).sublist (sublist_of_collected hcollected)⟩

/-- The first words of the lists are missed keywords in their order. -/
theorem pairwise_missed_entries :
    (coverage keywords grammar classifications).missed.entries.Pairwise fun earlier later =>
      ∀ first ∈ earlier.2.head?, ∀ second ∈ later.2.head?, first < second := by
  have hheads : ((coverage keywords grammar classifications).missed.values.filterMap
      List.head?).Sublist (missedWords keywords grammar) := by
    rw [coverage_eq]
    exact Table.sublist_heads_collect Verdict.classification Verdict.keyword _ List.not_mem_nil
  have hpairwise := (pairwise_missedWords keywords grammar).sublist hheads
  rw [List.pairwise_filterMap, Table.values, List.pairwise_map] at hpairwise
  exact hpairwise

theorem pairwise_mismatches :
    ((coverage keywords grammar classifications).mismatches.map Mismatch.keyword).Pairwise
      (· < ·) := by
  rw [coverage_eq, List.pairwise_map, List.pairwise_filterMap]
  have hverdicts := List.pairwise_map.mp (pairwise_verdicts keywords grammar)
  refine hverdicts.imp fun {v v'} hlt m hm m' hm' => ?_
  obtain ⟨rfl, -⟩ := Verdict.mismatch?_eq_some_iff.mp hm
  obtain ⟨rfl, -⟩ := Verdict.mismatch?_eq_some_iff.mp hm'
  exact hlt

/-- Of all keywords only the empty one is neither covered nor missed. -/
theorem size_eq (keywords : KeywordTable) : keywords.size =
    (keywords.keys.filter fun word => word ≠ "").length + if "" ∈ keywords.keys then 1 else 0 := by
  have hnodup : keywords.keys.Nodup := keywords.sorted.imp fun h => ne_of_lt h
  rw [← hnodup.count, List.count, SortedTable.size, ← List.length_map Prod.fst,
    List.length_eq_countP_add_countP (fun word => word == ""), Nat.add_comm,
    ← List.countP_eq_length_filter]
  congr 2
  funext word
  simp

theorem balances_coverage :
    Balances keywords classifications (firstScope? grammar)
      (coverage keywords grammar classifications) := by
  have hcovered : (coverage keywords grammar classifications).covered =
      (coveredWords keywords (firstScope? grammar)).length := by
    rw [coverage_eq, ← map_keyword_covered, List.length_map, ← List.countP_eq_length_filter]
  have htotal : (coverage keywords grammar classifications).total = keywords.size := by
    rw [coverage_eq]
  have hperm : (coveredWords keywords (firstScope? grammar) ++
      (coverage keywords grammar classifications).missed.values.flatten).Perm
        (keywords.keys.filter fun word => word ≠ "") :=
    (perm_flatten_missed.append_left _).trans (perm_coveredWords_missedWords keywords grammar)
  have hsum : (coverage keywords grammar classifications).total =
      (coverage keywords grammar classifications).covered +
        ((coverage keywords grammar classifications).missed.values.map List.length).sum +
          if "" ∈ keywords.keys then 1 else 0 := by
    rw [htotal, size_eq, ← hperm.length_eq, List.length_append, List.length_flatten, hcovered]
  refine ⟨hcovered, hperm, fun _ _ => own_of_missed, fun _ _ => ascending_of_missed,
    pairwise_missed_entries, htotal, hsum, ?_, fun _ => mem_mismatches_iff, pairwise_mismatches⟩
  exact Nat.sub_add_cancel (by omega)

/-- The keyword has a scope, and it is that of its classification if that one is known. -/
def Fine (grammar : Grammar) (classifications : ClassificationTable)
    (word classification : String) : Prop :=
  ∃ got, firstScope? grammar word = some got ∧
    ∀ expected, classifications.get? classification = some expected → got = expected

/-- A report is clean if all keywords but the empty one have the scopes that they should. -/
theorem isClean_iff : (coverage keywords grammar classifications).isClean ↔
    ∀ word entry, keywords.get? word = some entry → word ≠ "" →
      Fine grammar classifications word entry.classification := by
  rw [Coverage.isClean, Bool.and_eq_true, Table.isEmpty, List.isEmpty_iff, List.isEmpty_iff]
  constructor
  · intro ⟨hmissed, hmismatches⟩ word entry hentry hne
    cases hgot : firstScope? grammar word with
    | none =>
        obtain ⟨words, hwords, -⟩ := misses_iff.mpr ⟨hne, entry, hentry, rfl, hgot⟩
        have hmem := Table.get?_eq_some_iff.mp hwords
        rw [hmissed] at hmem
        cases hmem
    | some got =>
        refine ⟨got, hgot, fun expected hexpected => by_contra fun hdiffer => ?_⟩
        have hmem : ⟨word, entry.classification, got, expected⟩ ∈
            (coverage keywords grammar classifications).mismatches :=
          mem_mismatches_iff.mpr ⟨hne, entry, hentry, rfl, hgot, hexpected, hdiffer⟩
        rw [hmismatches] at hmem
        cases hmem
  · intro h
    constructor
    · rw [List.eq_nil_iff_forall_not_mem]
      intro ⟨classification, words⟩ hmem
      have hget := Table.get?_eq_some_iff.mpr hmem
      obtain ⟨word, hword⟩ := List.exists_mem_of_ne_nil words (ascending_of_missed hget).1
      obtain ⟨hne, entry, hentry, -, hnone⟩ := misses_iff.mp ⟨words, hget, hword⟩
      obtain ⟨got, hgot, -⟩ := h word entry hentry hne
      cases hnone.symm.trans hgot
    · rw [List.eq_nil_iff_forall_not_mem]
      intro m hm
      obtain ⟨hne, entry, hentry, hclass, hgot, hexpected, hdiffer⟩ := mem_mismatches_iff.mp hm
      obtain ⟨got, hgot', hfine⟩ := h m.keyword entry hentry hne
      cases hgot.symm.trans hgot'
      exact hdiffer (hfine m.expected (hclass ▸ hexpected))

/-- A report compiles the patterns or tells of them, both in the order of the grammar, and its
accounts of the keywords balance by what the compiled patterns give them. -/
theorem coverage_balances (keywords : KeywordTable) (grammar : Grammar)
    (classifications : ClassificationTable) :
    ∃ compiled,
      Compiles grammar.patterns compiled (coverage keywords grammar classifications).invalid ∧
      Balances keywords classifications (scopeOf? compiled)
        (coverage keywords grammar classifications) := by
  have hinvalid : (coverage keywords grammar classifications).invalid =
      invalidPatterns grammar := by
    rw [coverage_eq]
  have hscope : scopeOf? (matchers grammar) = firstScope? grammar :=
    funext (scopeOf?_matchers grammar)
  refine ⟨matchers grammar, ?_, ?_⟩
  · rw [hinvalid]
    exact compiles_matchers grammar
  · rw [hscope]
    exact balances_coverage

end Lexicolor.Grammar
