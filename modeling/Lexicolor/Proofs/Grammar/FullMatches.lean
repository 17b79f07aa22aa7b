import Mathlib
import Lexicolor.Proofs.Grammar.Coverage
import Lexicolor.Proofs.Pattern.Anchored

/-!
# Full matches of keywords

A coverage report puts a hat in front of each pattern and a dollar behind it. So
what it goes by is the first pattern that catches the keyword between these two.
It decides by full matches exactly where that pattern gives the keyword the same
scope as the first pattern that matches all of it.
-/

namespace Lexicolor

open Pattern

variable {pattern : GrammarPattern} {grammar : Grammar} {keywords : KeywordTable}
variable {classifications : ClassificationTable} {word regex : String} {entry : KeywordEntry}

/-! ## Patterns and words -/

namespace GrammarPattern

/-- The pattern can be read on its own, and matches the word from its first to its last
character. -/
def fitsWhole (pattern : GrammarPattern) (word : String) : Bool :=
  pattern.regex.any fun regex => match Pattern.read regex.toList with
    | .ok p => p.fits word.toList
    | .error _ => false

/-- The pattern catches the word once it stands between a hat and a dollar. -/
inductive Catches (pattern : GrammarPattern) (word : String) : Prop
  /-- The two bind the outer alternatives of a pattern. -/
  | bound {regex : String} {g : OpenGroup} {q : Pattern} (hregex : pattern.regex = some regex)
      (hopens : Opens regex.toList g) (hread : Grammar.wholeWord regex = .ok q)
      (hcatches : g.Catches word.toList)
  /-- A text that cannot be read on its own becomes a pattern: a repetition at its start now
  repeats the hat, and a backslash at its end now takes the dollar. -/
  | mended {regex : String} {q : Pattern} (hregex : pattern.regex = some regex)
      (hopens : ∀ g, ¬Opens regex.toList g) (hread : Grammar.wholeWord regex = .ok q)
      (hcatches : q.isIn word.toList)

theorem takes_iff_catches : pattern.takes word ↔ pattern.Catches word := by
  constructor
  · intro h
    obtain ⟨regex, hregex, h⟩ := Option.any_eq_true _ _ |>.mp h
    cases hread : Grammar.wholeWord regex with
    | error e => simp [hread] at h
    | ok q =>
        rw [hread] at h
        by_cases hopens : ∃ g, Opens regex.toList g
        · obtain ⟨g, hopens⟩ := hopens
          exact .bound hregex hopens hread ((hopens.isIn_iff hread _).mp h)
        · exact .mended hregex (not_exists.mp hopens) hread h
  · intro h
    cases h with
    | bound hregex hopens hread hcatches =>
        have hin := (hopens.isIn_iff hread _).mpr hcatches
        simpa [takes, hregex, hread] using hin
    | mended hregex hopens hread hcatches => simpa [takes, hregex, hread] using hcatches

instance : Decidable (pattern.Catches word) := decidable_of_iff _ takes_iff_catches

/-- The text of the pattern, if there is one, is a single alternative with levels to spare, and a
dollar behind it stands for the end of the word. -/
def Unsplit (pattern : GrammarPattern) : Prop :=
  ∀ regex, pattern.regex = some regex → ∃ g, Opens regex.toList g ∧ g.before = [] ∧
    g.flags.multiLine = false ∧ g.close.levels < maxLevels

/-- Where the hat and the dollar bind all of it, a pattern catches just what it matches whole. -/
theorem Unsplit.catches_iff (h : pattern.Unsplit) :
    pattern.Catches word ↔ pattern.fitsWhole word := by
  cases hregex : pattern.regex with
  | none =>
      refine iff_of_false ?_ (by simp [fitsWhole, hregex])
      intro hcatches
      cases hcatches with
      | bound hsome => cases hregex.symm.trans hsome
      | mended hsome => cases hregex.symm.trans hsome
  | some regex =>
      obtain ⟨g, hopens, hsingle, hmark, hlevels⟩ := h regex hregex
      obtain ⟨q, hq⟩ := hopens.exists_read hsingle hlevels
      have hread : Pattern.read regex.toList = .ok g.close.value :=
        read_eq_ok_iff.mpr ⟨g, hopens, hlevels.le, rfl⟩
      -- with one alternative, both marks bind all of the pattern
      have hfits : pattern.fitsWhole word ↔ g.Catches word.toList := by
        rw [OpenGroup.catches_iff_fits hsingle hmark]
        simp [fitsWhole, hregex, hread]
      rw [hfits]
      constructor
      · intro hcatches
        cases hcatches with
        | bound hsome hopens' _ hcatches =>
            cases hregex.symm.trans hsome
            rwa [hopens.unique hopens']
        | mended hsome hnone =>
            cases hregex.symm.trans hsome
            exact absurd hopens (hnone g)
      · exact .bound hregex hopens hq

end GrammarPattern

namespace Grammar

/-- The scope of the first pattern that can be read and matches all of the word. -/
def fullScope? (grammar : Grammar) (word : String) : Option String :=
  (grammar.patterns.find? fun pattern => pattern.fitsWhole word).bind GrammarPattern.scope?

/-- The scope of the first pattern that catches the word. -/
def caughtScope? (grammar : Grammar) (word : String) : Option String :=
  (grammar.patterns.find? fun pattern => pattern.Catches word).bind GrammarPattern.scope?

theorem firstScope?_eq_caughtScope? (grammar : Grammar) (word : String) :
    firstScope? grammar word = caughtScope? grammar word := by
  have htakes : (fun pattern : GrammarPattern => pattern.takes word) =
      fun pattern => decide (pattern.Catches word) := by
    funext pattern
    rw [← Bool.decide_coe (pattern.takes word)]
    exact decide_eq_decide.mpr GrammarPattern.takes_iff_catches
  rw [firstScope?, firstPattern?, htakes, caughtScope?]

/-! ## What a report says of a keyword -/

/-- The report judges a keyword by the scope: without one it is missed, and it is a mismatch if its
classification has another one. -/
structure Coverage.Judges (report : Coverage) (classifications : ClassificationTable)
    (word classification : String) (scope : Option String) : Prop where
  missed : ∀ other, report.Misses other word ↔ other = classification ∧ scope = none
  mismatched : ∀ m : Mismatch, m.keyword = word → (m ∈ report.mismatches ↔
    m.classification = classification ∧ scope = some m.got ∧
      classifications.get? classification = some m.expected ∧ m.got ≠ m.expected)

theorem judges_caughtScope? (hget : keywords.get? word = some entry) (hword : word ≠ "") :
    (coverage keywords grammar classifications).Judges classifications word entry.classification
      (caughtScope? grammar word) := by
  constructor
  · intro other
    rw [misses_iff, firstScope?_eq_caughtScope?, hget]
    simp [hword, eq_comm]
  · intro m hm
    rw [mem_mismatches_iff, hm, firstScope?_eq_caughtScope?, hget]
    constructor
    · rintro ⟨-, entry', hentry, hclass, hgot, hexpected, hdiffer⟩
      cases hentry
      exact ⟨hclass, hgot, hclass ▸ hexpected, hdiffer⟩
    · rintro ⟨hclass, hgot, hexpected, hdiffer⟩
      exact ⟨hword, entry, rfl, hclass, hgot, hclass ▸ hexpected, hdiffer⟩

/-- A report judges each keyword by one scope only, if the classifications are arbitrary. -/
theorem eq_of_judges {classification : String} {report : ClassificationTable → Coverage}
    {scope scope' : Option String}
    (h : ∀ classifications,
      (report classifications).Judges classifications word classification scope)
    (h' : ∀ classifications,
      (report classifications).Judges classifications word classification scope') :
    scope = scope' := by
  cases scope with
  | none =>
      have hmissed := ((h .empty).missed classification).mpr ⟨rfl, rfl⟩
      exact (((h' .empty).missed classification).mp hmissed).2.symm
  | some got =>
      cases scope' with
      | none =>
          have hmissed := ((h' .empty).missed classification).mpr ⟨rfl, rfl⟩
          exact (((h .empty).missed classification).mp hmissed).2
      | some got' =>
          by_contra hne
          -- the classification has the second scope, so only the first is a mismatch
          have hget : (Table.empty.set classification got').get? classification = some got' :=
            Table.get?_set_self ..
          have hmem := ((h (Table.empty.set classification got')).mismatched
            ⟨word, classification, got, got'⟩ rfl).mpr
              ⟨rfl, rfl, hget, fun heq => hne (congrArg some heq)⟩
          have hgot := (((h' (Table.empty.set classification got')).mismatched
            ⟨word, classification, got, got'⟩ rfl).mp hmem).2.1
          exact hne hgot.symm

theorem covered_eq : (coverage keywords grammar classifications).covered =
    keywords.entries.countP fun e => e.1 ≠ "" && (caughtScope? grammar e.1).isSome := by
  rw [coverage_eq]
  show (verdicts keywords grammar).countP (fun v => v.got.isSome) = _
  rw [verdicts, verdictsOn, List.countP_map, List.countP_filter]
  congr 1
  funext e
  rw [Bool.and_comm, ← firstScope?_eq_caughtScope?]
  rfl

theorem caughtScope?_eq_fullScope? (h : ∀ pattern ∈ grammar.patterns, pattern.Unsplit)
    (word : String) : caughtScope? grammar word = fullScope? grammar word := by
  have hfind : (grammar.patterns.find? fun pattern => pattern.Catches word) =
      grammar.patterns.find? fun pattern => pattern.fitsWhole word := by
    apply List.find?_congr
    intro pattern hpattern
    exact Bool.eq_iff_iff.mpr (decide_eq_true_iff.trans (h pattern hpattern).catches_iff)
  rw [caughtScope?, hfind, fullScope?]

/-! ## Generated grammars -/

theorem unsplit_captured {texts : List (List Char)} (hne : texts ≠ [])
    (h : ∀ text ∈ texts, ∃ R, Course 6 text R) (scope : String) :
    (captured (Text.join ['|'] texts) scope).Unsplit := by
  intro regex hregex
  cases hregex
  obtain ⟨g, hopens, hsingle, hflags, hlevels⟩ :=
    (course_group Opening.plain hne (course_moves h)).exists_opens
  rw [String.toList_ofList]
  exact ⟨g, hopens, hsingle, by rw [hflags], hlevels.trans_lt (by decide)⟩

theorem unsplit_of_mem_generate {prefixes : PrefixTable}
    (h : pattern ∈ (generate prefixes keywords).patterns) : pattern.Unsplit := by
  rcases List.mem_append.mp h with h | h
  · obtain ⟨scope, words, hget, rfl⟩ := mem_keywordPatterns.mp h
    rw [keywordPattern_eq]
    exact unsplit_captured (keywordTexts_ne_nil (mem_keywordsByScope hget).1)
      (exists_course_keywordTexts words) scope
  · obtain ⟨name, entry, -, rfl⟩ := mem_prefixPatterns.mp h
    have hunsplit := unsplit_captured (List.cons_ne_nil (prefixPattern name.toList) [])
      (List.forall_mem_singleton.mpr ⟨_, course_prefixPattern name.toList⟩)
      (Scope.ofClassification entry.classification)
    simpa [Text.join] using hunsplit

/-- A report on a generated grammar decides by full matches. -/
theorem judges_generate {prefixes : PrefixTable} {listed : KeywordTable}
    (hget : keywords.get? word = some entry) (hword : word ≠ "") :
    (coverage keywords (generate prefixes listed) classifications).Judges classifications word
      entry.classification (fullScope? (generate prefixes listed) word) := by
  rw [← caughtScope?_eq_fullScope? fun _ => unsplit_of_mem_generate]
  exact judges_caughtScope? hget hword

/-! ## Reports on any grammar -/

/-- A report counts and judges the keywords by the patterns that catch them first. So it judges a
keyword by full matches just where the scope of that pattern is the one of the first pattern that
matches all of it, as it is where no pattern is split into alternatives. -/
theorem judges_fullScope?_iff (grammar : Grammar) (hget : keywords.get? word = some entry)
    (hword : word ≠ "") :
    (∀ classifications,
      (coverage keywords grammar classifications).covered = (keywords.entries.countP fun e =>
        e.1 ≠ "" && (caughtScope? grammar e.1).isSome) ∧
      (coverage keywords grammar classifications).Judges classifications word
        entry.classification (caughtScope? grammar word)) ∧
    ((∀ classifications, (coverage keywords grammar classifications).Judges classifications word
      entry.classification (fullScope? grammar word)) ↔
        caughtScope? grammar word = fullScope? grammar word) ∧
    ((∀ pattern ∈ grammar.patterns, pattern.Unsplit) →
      caughtScope? grammar word = fullScope? grammar word) := by
  refine ⟨fun _ => ⟨covered_eq, judges_caughtScope? hget hword⟩, ⟨fun h => ?_, fun h => ?_⟩,
    fun h => caughtScope?_eq_fullScope? h word⟩
  · exact eq_of_judges (fun _ => judges_caughtScope? hget hword) h
  · intro classifications
    rw [← h]
    exact judges_caughtScope? hget hword

def automatic : KeywordTable := ⟨[("auto", ⟨"EClassification_Keyword", false⟩)], by decide⟩

/-- On the grammar that is generated for the keyword, the report decides by full matches. -/
theorem judges_fullScope?_automatic :
    (coverage automatic (generate .empty automatic)
      (.ofNames ["EClassification_Keyword"])).Judges (.ofNames ["EClassification_Keyword"])
        "auto" "EClassification_Keyword" (fullScope? (generate .empty automatic) "auto") := by
  have hget : automatic.get? "auto" = some ⟨"EClassification_Keyword", false⟩ := by decide
  obtain ⟨-, hiff, hunsplit⟩ :=
    judges_fullScope?_iff (generate .empty automatic) hget (by decide)
  exact hiff.mpr (hunsplit fun _ => unsplit_of_mem_generate) _

/-- A grammar whose pattern is split: the hat binds only the first alternative, and the dollar
only the last one. -/
def splitGrammar : Grammar :=
  ⟨"malterlib.injection", "", [.captured "a|int" "malterlib-keyword"], .empty⟩

/-- An a at the start is enough for the split pattern, so the report has the keyword as covered,
though no match is the whole of it. -/
theorem not_forall_judges_fullScope? : ¬∀ (keywords : KeywordTable) (grammar : Grammar)
    (classifications : ClassificationTable) (word : String) (entry : KeywordEntry),
    keywords.get? word = some entry → word ≠ "" →
      (coverage keywords grammar classifications).Judges classifications word
        entry.classification (fullScope? grammar word) := by
  intro h
  have hfull : fullScope? splitGrammar "auto" = none := by cbv
  have hfirst : firstScope? splitGrammar "auto" = some "malterlib-keyword" := by cbv
  have hjudges := h automatic splitGrammar .empty "auto" ⟨"EClassification_Keyword", false⟩
    (by decide) (by decide)
  obtain ⟨-, entry, -, -, hnone⟩ :=
    misses_iff.mp ((hjudges.missed "EClassification_Keyword").mpr ⟨rfl, hfull⟩)
  cases hnone.symm.trans hfirst

end Grammar

end Lexicolor
