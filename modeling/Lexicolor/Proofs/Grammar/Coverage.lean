import Mathlib
import Lexicolor.Grammar.Coverage
import Lexicolor.Proofs.Grammar.FirstPattern

/-!
# What a coverage report says

A report on any grammar lists exactly the keywords without a pattern, and those
whose first pattern has another scope than their classification. A generated
grammar covers the keywords that are like words, each by the pattern of its
scope, and no others.
-/

namespace Lexicolor.Grammar

variable {prefixes : PrefixTable} {keywords : KeywordTable} {classifications : ClassificationTable}
variable {grammar : Grammar} {word classification : String} {entry : KeywordEntry}

/-! ## Reports on any grammar -/

theorem scopeOf?_matchers (grammar : Grammar) (word : String) :
    scopeOf? (matchers grammar) word = firstScope? grammar word := by
  unfold scopeOf? matchers firstScope? firstPattern?
  induction grammar.patterns with
  | nil => rfl
  | cons pattern patterns ih =>
      rw [List.filterMap_cons, List.find?_cons]
      cases hregex : pattern.regex with
      | none => simpa [GrammarPattern.takes, hregex] using ih
      | some regex =>
          cases hread : wholeWord regex with
          | error e => simpa [GrammarPattern.takes, hregex, hread] using ih
          | ok p =>
              have htakes : pattern.takes word = p.isIn word.toList := by
                simp [GrammarPattern.takes, hregex, hread]
              simp only [Option.bind_eq_bind, Option.bind_some, hread, List.find?_cons, htakes]
              cases p.isIn word.toList with
              | true => simp
              | false => exact ih

/-- A keyword with its classification, and the scope that the grammar gives it. -/
structure Verdict where
  keyword : String
  classification : String
  got : Option String

def verdictOn (grammar : Grammar) (keyword : String) (entry : KeywordEntry) : Verdict :=
  ⟨keyword, entry.classification, firstScope? grammar keyword⟩

/-- The verdicts on all keywords but the empty one. -/
def verdictsOn (grammar : Grammar) (entries : List (String × KeywordEntry)) : List Verdict :=
  (entries.filter fun e => e.1 ≠ "").map fun e => verdictOn grammar e.1 e.2

def verdicts (keywords : KeywordTable) (grammar : Grammar) : List Verdict :=
  verdictsOn grammar keywords.entries

def Verdict.mismatch? (classifications : ClassificationTable) (v : Verdict) :
    Option Mismatch := do
  let got ← v.got
  let expected ← classifications.get? v.classification
  if got = expected then none else some ⟨v.keyword, v.classification, got, expected⟩

namespace Coverage

/-- The report with one more verdict. -/
def add (classifications : ClassificationTable) (report : Coverage) (v : Verdict) : Coverage where
  total := report.total
  covered := report.covered + if v.got.isSome then 1 else 0
  missed :=
    if v.got.isNone then
      report.missed.alter v.classification fun old => old.getD [] ++ [v.keyword]
    else report.missed
  mismatches := report.mismatches ++ (v.mismatch? classifications).toList
  invalid := report.invalid

/-- A look at a keyword adds the verdict on it. -/
theorem check_eq (report : Coverage) (hword : word ≠ "") :
    report.check (matchers grammar) classifications word entry =
      report.add classifications (verdictOn grammar word entry) := by
  rw [check, if_neg hword, scopeOf?_matchers, verdictOn]
  cases firstScope? grammar word with
  | none => simp [add, Verdict.mismatch?]
  | some got =>
      cases hexpected : classifications.get? entry.classification with
      | none => simp [add, Verdict.mismatch?, hexpected]
      | some expected =>
          by_cases hgot : got = expected <;> simp [add, Verdict.mismatch?, hexpected, hgot]

theorem check_empty (report : Coverage) :
    report.check (matchers grammar) classifications "" entry = report := by
  rw [check, if_pos rfl]

/-- Verdicts one after the other count, are collected by classification, and leave their
mismatches. -/
theorem foldl_add (vs : List Verdict) (report : Coverage) :
    vs.foldl (add classifications) report =
      { total := report.total
        covered := report.covered + vs.countP fun v => v.got.isSome
        missed := (vs.filter fun v => v.got.isNone).foldl
          (fun missed v => missed.alter v.classification fun old => old.getD [] ++ [v.keyword])
          report.missed
        mismatches := report.mismatches ++ vs.filterMap (Verdict.mismatch? classifications)
        invalid := report.invalid } := by
  induction vs generalizing report with
  | nil => simp
  | cons v vs ih =>
      rw [List.foldl_cons, ih, add, List.countP_cons, List.filter_cons, List.filterMap_cons]
      cases v.got <;> cases v.mismatch? classifications <;> simp <;> omega

theorem foldl_check (entries : List (String × KeywordEntry)) (report : Coverage) :
    entries.foldl (fun report e => report.check (matchers grammar) classifications e.1 e.2) report =
      (verdictsOn grammar entries).foldl (add classifications) report := by
  induction entries generalizing report with
  | nil => rfl
  | cons e entries ih =>
      obtain ⟨keyword, entry⟩ := e
      rw [List.foldl_cons, ih, verdictsOn, verdictsOn, List.filter_cons]
      by_cases hkeyword : keyword = ""
      · simp [hkeyword, check_empty]
      · simp [hkeyword, check_eq]

end Coverage

theorem coverage_eq (keywords : KeywordTable) (grammar : Grammar)
    (classifications : ClassificationTable) :
    coverage keywords grammar classifications =
      { total := keywords.size
        covered := (verdicts keywords grammar).countP fun v => v.got.isSome
        missed := ((verdicts keywords grammar).filter fun v => v.got.isNone).foldl
          (fun missed v => missed.alter v.classification fun old => old.getD [] ++ [v.keyword])
          .empty
        mismatches := (verdicts keywords grammar).filterMap (Verdict.mismatch? classifications)
        invalid := invalidPatterns grammar } := by
  rw [coverage, Coverage.foldl_check, Coverage.foldl_add, Nat.zero_add, List.nil_append, verdicts]

theorem mem_verdicts {v : Verdict} : v ∈ verdicts keywords grammar ↔ v.keyword ≠ "" ∧
    ∃ entry, keywords.get? v.keyword = some entry ∧ v.classification = entry.classification ∧
      v.got = firstScope? grammar v.keyword := by
  simp only [verdicts, verdictsOn, List.mem_map, List.mem_filter, decide_eq_true_eq,
    SortedTable.get?_eq_some_iff]
  constructor
  · rintro ⟨⟨keyword, entry⟩, ⟨hentry, hne⟩, rfl⟩
    exact ⟨hne, entry, hentry, rfl, rfl⟩
  · obtain ⟨keyword, classification, got⟩ := v
    rintro ⟨hne, entry, hentry, hclass, hgot⟩
    exact ⟨(keyword, entry), ⟨hentry, hne⟩, Verdict.mk.injEq .. ▸ ⟨rfl, hclass.symm, hgot.symm⟩⟩

/-- The report lists the keyword as missed under the classification. -/
def Coverage.Misses (report : Coverage) (classification word : String) : Prop :=
  ∃ words, report.missed.get? classification = some words ∧ word ∈ words

theorem get?_missed :
    (coverage keywords grammar classifications).missed.get? classification =
      collected Verdict.classification Verdict.keyword
        ((verdicts keywords grammar).filter fun v => v.got.isNone) classification := by
  rw [coverage_eq]
  exact Table.get?_collect Verdict.classification Verdict.keyword _ classification

theorem misses_iff_exists_verdict :
    (coverage keywords grammar classifications).Misses classification word ↔
      ∃ v ∈ (verdicts keywords grammar).filter fun v => v.got.isNone,
        v.classification = classification ∧ v.keyword = word := by
  rw [Coverage.Misses, get?_missed]
  constructor
  · rintro ⟨words, hwords, hword⟩
    exact ((collected_eq_some hwords).2 word).mp hword
  · rintro ⟨v, hv, hclass, hword⟩
    obtain ⟨words, hwords⟩ := Option.isSome_iff_exists.mp
      (isSome_collected.mpr ⟨v, hv, hclass⟩)
    exact ⟨words, hwords, ((collected_eq_some hwords).2 word).mpr ⟨v, hv, hclass, hword⟩⟩

theorem misses_iff : (coverage keywords grammar classifications).Misses classification word ↔
    word ≠ "" ∧ ∃ entry, keywords.get? word = some entry ∧
      entry.classification = classification ∧ firstScope? grammar word = none := by
  simp only [misses_iff_exists_verdict, List.mem_filter, mem_verdicts, Option.isNone_iff_eq_none]
  constructor
  · rintro ⟨v, ⟨⟨hne, entry, hentry, hclass, hgot⟩, hnone⟩, rfl, rfl⟩
    exact ⟨hne, entry, hentry, hclass.symm, hgot ▸ hnone⟩
  · rintro ⟨hne, entry, hentry, hclass, hnone⟩
    exact ⟨⟨word, classification, none⟩, ⟨⟨hne, entry, hentry, hclass.symm, hnone.symm⟩, rfl⟩,
      rfl, rfl⟩

theorem Verdict.mismatch?_eq_some_iff {v : Verdict} {m : Mismatch} :
    v.mismatch? classifications = some m ↔ v = ⟨m.keyword, m.classification, some m.got⟩ ∧
      classifications.get? m.classification = some m.expected ∧ m.got ≠ m.expected := by
  obtain ⟨keyword, classification, got⟩ := v
  cases got with
  | none => simp [mismatch?]
  | some got =>
      cases hget : classifications.get? classification with
      | none =>
          refine iff_of_false (by simp [mismatch?, hget]) ?_
          rintro ⟨⟨⟩, hexpected, -⟩
          rw [hget] at hexpected
          cases hexpected
      | some expected =>
          simp only [mismatch?, hget, Option.bind_eq_bind, Option.bind_some]
          split
          next heq =>
            refine iff_of_false (by simp) ?_
            rintro ⟨⟨⟩, hexpected, hdiffer⟩
            cases hget.symm.trans hexpected
            exact hdiffer heq
          next hdiffer =>
            constructor
            · rintro ⟨⟩
              exact ⟨rfl, hget, hdiffer⟩
            · rintro ⟨⟨⟩, hexpected, -⟩
              cases hget.symm.trans hexpected
              rfl

theorem mem_mismatches_iff {m : Mismatch} :
    m ∈ (coverage keywords grammar classifications).mismatches ↔
      m.keyword ≠ "" ∧ ∃ entry, keywords.get? m.keyword = some entry ∧
        m.classification = entry.classification ∧ firstScope? grammar m.keyword = some m.got ∧
        classifications.get? m.classification = some m.expected ∧ m.got ≠ m.expected := by
  rw [coverage_eq]
  simp only [List.mem_filterMap, Verdict.mismatch?_eq_some_iff, mem_verdicts]
  constructor
  · rintro ⟨_, ⟨hne, entry, hentry, hclass, hgot⟩, rfl, hexpected⟩
    exact ⟨hne, entry, hentry, hclass, hgot.symm, hexpected⟩
  · rintro ⟨hne, entry, hentry, hclass, hgot, hexpected⟩
    exact ⟨_, ⟨hne, entry, hentry, hclass, hgot.symm⟩, rfl, hexpected⟩

/-! ## Reports on a generated grammar -/

theorem invalidPatterns_generate (prefixes : PrefixTable) (keywords : KeywordTable) :
    (coverage keywords (generate prefixes keywords) classifications).invalid = [] := by
  rw [coverage_eq]
  apply List.filterMap_eq_nil_iff.mpr
  intro pattern hpattern
  obtain ⟨L, regex, p, hregex, hread, -⟩ := exists_matches hpattern
  simp [hregex, hread]

theorem firstScope?_eq_none_of_not_wordLike (h : ¬WordLike word.toList) :
    firstScope? (generate prefixes keywords) word = none := by
  have hnone : firstPattern? (generate prefixes keywords) word = none := by
    apply List.find?_eq_none.mpr
    intro pattern hpattern htakes
    exact h (wordLike_of_takes hpattern htakes)
  rw [firstScope?, hnone, Option.bind_none]

/-- The generated grammar has no pattern that cannot be read, misses just the keywords that are not
like words, and gives each of the others the pattern for the keywords of its scope, so that its
report tells only of classifications that have another scope. -/
theorem coverage_generate (keywords : KeywordTable) (prefixes : PrefixTable)
    (classifications : ClassificationTable) :
    (coverage keywords (generate prefixes keywords) classifications).invalid = [] ∧
    ∀ word entry, keywords.get? word = some entry → word ≠ "" → entry.isExample = false →
      entry.classification ≠ "" →
      ((coverage keywords (generate prefixes keywords) classifications).Misses
        entry.classification word ↔ ¬WordLike word.toList) ∧
      (WordLike word.toList →
        (∃ words,
          (keywordsByScope keywords).get? (Scope.ofClassification entry.classification) =
            some words ∧
          firstPattern? (generate prefixes keywords) word =
            some (captured (keywordPattern words)
              (Scope.ofClassification entry.classification))) ∧
        ((∃ m ∈ (coverage keywords (generate prefixes keywords) classifications).mismatches,
          m.keyword = word) ↔
          ∃ expected, classifications.get? entry.classification = some expected ∧
            expected ≠ Scope.ofClassification entry.classification)) := by
  refine ⟨invalidPatterns_generate prefixes keywords, ?_⟩
  intro word entry hget hne hexample hclass
  have hlists : Lists keywords word (Scope.ofClassification entry.classification) :=
    ⟨entry, hget, hexample, hclass, rfl⟩
  -- the first pattern for a keyword like a word is the one of its own scope
  have hscope (hword : WordLike word.toList) : firstScope? (generate prefixes keywords) word =
      some (Scope.ofClassification entry.classification) := by
    obtain ⟨words, -, hfirst⟩ := firstPattern?_of_lists prefixes hlists hword
    rw [firstScope?, hfirst, Option.bind_some, scope?_captured]
  refine ⟨misses_iff.trans ?_, fun hword => ⟨firstPattern?_of_lists prefixes hlists hword, ?_⟩⟩
  · constructor
    · rintro ⟨-, -, -, -, hnone⟩ hword
      rw [hscope hword] at hnone
      cases hnone
    · intro hword
      exact ⟨hne, entry, hget, rfl, firstScope?_eq_none_of_not_wordLike hword⟩
  · constructor
    · rintro ⟨m, hm, rfl⟩
      obtain ⟨-, entry', hget', hclass', hgot, hexpected, hdiffer⟩ := mem_mismatches_iff.mp hm
      cases hget.symm.trans hget'
      rw [hscope hword, Option.some_inj] at hgot
      exact ⟨m.expected, hclass' ▸ hexpected, hgot ▸ hdiffer.symm⟩
    · rintro ⟨expected, hexpected, hdiffer⟩
      exact ⟨⟨word, entry.classification, Scope.ofClassification entry.classification, expected⟩,
        mem_mismatches_iff.mpr ⟨hne, entry, hget, rfl, hscope hword, hexpected, hdiffer.symm⟩, rfl⟩

/-- A directive, and brackets, which have no word characters. -/
def annotations : KeywordTable :=
  ⟨[("#if", ⟨"EClassification_Macro", false⟩), ("[[", ⟨"EClassification_Macro", false⟩)], by decide⟩

theorem coverage_annotations :
    (coverage annotations (generate .empty annotations)
      ⟨[("EClassification_Macro", "other")], by decide⟩).Misses "EClassification_Macro" "[[" ∧
    ∃ m ∈ (coverage annotations (generate .empty annotations)
      ⟨[("EClassification_Macro", "other")], by decide⟩).mismatches, m.keyword = "#if" := by
  have hreport := (coverage_generate annotations .empty
    ⟨[("EClassification_Macro", "other")], by decide⟩).2
  have hget (word : String) (hword : word = "#if" ∨ word = "[[") :
      annotations.get? word = some ⟨"EClassification_Macro", false⟩ := by
    apply SortedTable.get?_eq_some_iff.mpr
    rcases hword with rfl | rfl <;> simp [annotations]
  have hbrackets := hreport "[[" _ (hget _ (.inr rfl)) (by decide) rfl (by decide)
  have hdirective := hreport "#if" _ (hget _ (.inl rfl)) (by decide) rfl (by decide)
  refine ⟨hbrackets.1.mpr (by decide), (hdirective.2 (by decide)).2.mpr ⟨"other", rfl, ?_⟩⟩
  intro heq
  have hhead := head?_ofClassification "EClassification_Macro"
  rw [← heq] at hhead
  cases hhead

end Lexicolor.Grammar
