import Mathlib
import Lexicolor.Grammar.Coverage
import Lexicolor.Grammar.Generate
import Lexicolor.Proofs.Clangd.PrefixLanguage

/-!
# Words that a grammar takes as a whole

Every pattern of a generated grammar can be read. The pattern for keywords takes
exactly those of its keywords that have word characters where it asks for word
boundaries, and the pattern for a prefix takes the longer identifiers that start
with it, whether a capital follows or not.
-/

namespace Lexicolor

open Computability Pattern Clangd

/-- The pattern matches the word as a whole. -/
def GrammarPattern.takes (pattern : GrammarPattern) (word : String) : Bool :=
  pattern.regex.any fun regex => match Grammar.wholeWord regex with
    | .ok p => p.isIn word.toList
    | .error _ => false

/-- The pattern can be read, and as a whole it matches the words of the language. -/
def GrammarPattern.Matches (pattern : GrammarPattern) (L : Language Char) : Prop :=
  ∃ regex p, pattern.regex = some regex ∧ Grammar.wholeWord regex = .ok p ∧
    ∀ w, p.isIn w ↔ w ∈ L

theorem GrammarPattern.Matches.takes_iff {pattern : GrammarPattern} {L : Language Char}
    {word : String} (h : pattern.Matches L) : pattern.takes word ↔ word.toList ∈ L := by
  obtain ⟨regex, p, hregex, hread, hp⟩ := h
  rw [takes, hregex, ← hp]
  simp [hread]

namespace Grammar

variable {text : List Char} {depth : Nat} {words : List (List Char)} {name w : List Char}
variable {R : Spot → Spot → Prop}

/-! ## Alternatives as a whole -/

/-- Where the pattern with this text leads from a spot. -/
def Moves (text : List Char) (s t : Spot) : Prop := ∃ p, Pattern.read text = .ok p ∧ t ∈ p.ends s

theorem moves_eq (h : Course depth text R) (hdepth : depth < maxLevels) : Moves text = R := by
  obtain ⟨parts, hread, hparts, hR⟩ := h
  have hread := read_of_readsAs hread hparts hdepth
  funext s t
  apply propext
  constructor
  · rintro ⟨p, hp, ht⟩
    rw [hread] at hp
    cases hp
    exact (hR s t).mp ht
  · intro hst
    exact ⟨_, hread, (hR s t).mpr hst⟩

/-- The text leads through the whole word. -/
def LeadsThrough (text w : List Char) : Prop := ∃ t, Moves text (.start w) t ∧ t.rest = []

theorem course_moves {texts : List (List Char)} (h : ∀ text ∈ texts, ∃ R, Course 6 text R) :
    ∀ text ∈ texts, Course 6 text (Moves text) := by
  intro text htext
  obtain ⟨R, hR⟩ := h text htext
  rwa [moves_eq hR (by decide)]

/-- A capture of alternatives takes the words that one of them leads through. -/
theorem exists_wholeWord {texts : List (List Char)} (hne : texts ≠ [])
    (h : ∀ text ∈ texts, ∃ R, Course 6 text R) :
    ∃ p, wholeWord (String.ofList ('(' :: Text.join ['|'] texts ++ [')'])) = .ok p ∧
      ∀ w, p.isIn w ↔ ∃ text ∈ texts, LeadsThrough text w := by
  obtain ⟨p, hread, hp⟩ :=
    read_between_ends (course_group Opening.plain hne (course_moves h)) (by decide)
  refine ⟨p, ?_, fun w => (hp w).trans ?_⟩
  · rw [wholeWord, String.toList_ofList]
    exact hread
  · constructor
    · rintro ⟨t, ⟨text, htext, ht⟩, hrest⟩
      exact ⟨text, htext, t, ht, hrest⟩
    · rintro ⟨text, htext, t, ht, hrest⟩
      exact ⟨t, ⟨text, htext, ht⟩, hrest⟩

/-! ## Keywords -/

/-- A word boundary stands at both ends of the word; a hash needs none before it. -/
def WordLike (w : List Char) : Prop :=
  (w.head? = some '#' ∨ w.head?.any Unicode.isWord) ∧ w.getLast?.any Unicode.isWord

instance : DecidablePred WordLike := fun _ => inferInstanceAs (Decidable (_ ∧ _))

/-- The relation of a course between two word boundaries. -/
def Bounded (R : Spot → Spot → Prop) (s t : Spot) : Prop :=
  Assertion.boundary.holds s ∧ R s t ∧ Assertion.boundary.holds t

theorem course_bounded (h : Course depth text R) :
    Course depth (boundary ++ text ++ boundary) (Bounded R) := by
  have hboundary := course_boundary.mono (Nat.zero_le depth)
  have hcourse := (hboundary.append h).append hboundary
  have hR : Relation.Comp (Relation.Comp (fun s t => Assertion.boundary.holds s ∧ t = s) R)
      (fun s t => Assertion.boundary.holds s ∧ t = s) = Bounded R := by
    funext s t
    apply propext
    constructor
    · rintro ⟨_, ⟨_, ⟨hs, rfl⟩, hR⟩, ht, rfl⟩
      exact ⟨hs, hR, ht⟩
    · rintro ⟨hs, hR, ht⟩
      exact ⟨t, ⟨s, ⟨hs, rfl⟩, hR⟩, ht, rfl⟩
  rwa [hR] at hcourse

theorem holds_boundary_start (w : List Char) :
    Assertion.boundary.holds (.start w) = w.head?.any Unicode.isWord := by
  simp [Assertion.holds, Spot.start, Spot.wordBefore, Spot.wordAfter]

theorem holds_boundary_end {t : Spot} {L : Language Char} (h : (Spot.start w).Through L t)
    (hrest : t.rest = []) :
    w ∈ L ∧ Assertion.boundary.holds t = w.getLast?.any Unicode.isWord := by
  obtain ⟨v, hv, htakes⟩ := h
  obtain rfl : w = v := by simpa [Spot.start, hrest] using htakes.rest
  have hlast : t.last = w.getLast? := by simpa [Spot.start] using htakes.last
  exact ⟨hv, by simp [Assertion.holds, Spot.wordBefore, Spot.wordAfter, hrest, hlast]⟩

/-- The words of the language that have word characters at both ends. -/
def bordered (L : Language Char) : Language Char :=
  {w | w ∈ L ∧ w.head?.any Unicode.isWord ∧ w.getLast?.any Unicode.isWord}

theorem leadsThrough_bordered {L : Language Char} (h : Row depth text L)
    (hdepth : depth < maxLevels) :
    LeadsThrough (boundary ++ text ++ boundary) w ↔ w ∈ bordered L := by
  rw [LeadsThrough, moves_eq (course_bounded h.course) hdepth]
  show _ ↔ w ∈ L ∧ _
  rw [← holds_boundary_start]
  constructor
  · rintro ⟨t, ⟨hstart, hthrough, hend⟩, hrest⟩
    obtain ⟨hw, hlast⟩ := holds_boundary_end hthrough hrest
    exact ⟨hw, hstart, hlast ▸ hend⟩
  · rintro ⟨hw, hstart, hend⟩
    obtain ⟨t, hthrough, hrest⟩ := through_to_end.mpr hw
    refine ⟨t, ⟨hstart, hthrough, ?_⟩, hrest⟩
    rwa [(holds_boundary_end hthrough hrest).2]

/-- A row before a word boundary leads through those of its words that end in a word character. -/
theorem leadsThrough_closed {L : Language Char} (h : Row depth text L)
    (hdepth : depth < maxLevels) :
    LeadsThrough (text ++ boundary) w ↔ w ∈ L ∧ w.getLast?.any Unicode.isWord := by
  have hcourse : Course depth (text ++ boundary) _ :=
    h.course.append (course_boundary.mono (Nat.zero_le depth))
  rw [LeadsThrough, moves_eq hcourse hdepth]
  constructor
  · rintro ⟨t, ⟨_, hthrough, hend, rfl⟩, hrest⟩
    obtain ⟨hw, hlast⟩ := holds_boundary_end hthrough hrest
    exact ⟨hw, hlast ▸ hend⟩
  · rintro ⟨hw, hend⟩
    obtain ⟨t, hthrough, hrest⟩ := through_to_end.mpr hw
    refine ⟨t, ⟨t, hthrough, ?_, rfl⟩, hrest⟩
    rwa [(holds_boundary_end hthrough hrest).2]

/-- The language of these words. -/
def oneOf (words : List (List Char)) : Language Char := {w | w ∈ words}

/-- Escaped words as alternatives have just these words. -/
theorem row_alternation (hne : words ≠ []) :
    Row 3 ("(?:".toList ++ alternation words ++ ")".toList) (oneOf words) := by
  have hrow : ∀ text ∈ (Text.longestFirst id words).map escape, Course 0 text (Moves text) := by
    intro text htext
    obtain ⟨word, -, rfl⟩ := List.mem_map.mp htext
    have h := (row_escape word).course
    rwa [moves_eq h (by decide)]
  have hsome : (Text.longestFirst id words).map escape ≠ [] := by
    obtain ⟨word, hword⟩ := List.exists_mem_of_ne_nil words hne
    exact List.ne_nil_of_mem (List.mem_map.mpr ⟨word, Text.mem_longestFirst.mpr hword, rfl⟩)
  have hgroup := course_group Opening.uncaptured hsome hrow
  -- the order of the alternatives makes no difference to the language
  have hR : (fun s t => ∃ text ∈ (Text.longestFirst id words).map escape, Moves text s t) =
      fun s t => s.Through (oneOf words) t := by
    funext s t
    apply propext
    constructor
    · rintro ⟨_, htext, hmoves⟩
      obtain ⟨word, hword, rfl⟩ := List.mem_map.mp htext
      rw [moves_eq (row_escape word).course (by decide)] at hmoves
      obtain ⟨_, rfl, htakes⟩ := hmoves
      exact ⟨_, Text.mem_longestFirst.mp hword, htakes⟩
    · rintro ⟨word, hword, htakes⟩
      refine ⟨_, List.mem_map.mpr ⟨word, Text.mem_longestFirst.mpr hword, rfl⟩, ?_⟩
      rw [moves_eq (row_escape word).course (by decide)]
      exact ⟨word, rfl, htakes⟩
  rw [hR] at hgroup
  exact hgroup

/-- The words without those that start with a hash. -/
def plainWords (words : List (List Char)) : List (List Char) :=
  words.filter fun word => word.head? ≠ some '#'

/-- What follows the hash in the words that start with one. -/
def directives (words : List (List Char)) : List (List Char) :=
  words.filterMap (Text.after? ['#'])

/-- The alternatives of the pattern for keywords. -/
def keywordTexts (words : List (List Char)) : List (List Char) :=
  (if (plainWords words).isEmpty then []
    else [boundary ++ "(?:".toList ++ alternation (plainWords words) ++ ")".toList ++ boundary]) ++
  (if (directives words).isEmpty then []
    else ["#(?:".toList ++ alternation (directives words) ++ ")".toList ++ boundary])

theorem keywordPattern_eq (words : List (List Char)) :
    keywordPattern words = Text.join ['|'] (keywordTexts words) := rfl

theorem mem_keywordTexts : text ∈ keywordTexts words ↔
    plainWords words ≠ [] ∧
      text = boundary ++ ("(?:".toList ++ alternation (plainWords words) ++ ")".toList) ++ boundary ∨
    directives words ≠ [] ∧
      text = "#(?:".toList ++ alternation (directives words) ++ ")".toList ++ boundary := by
  unfold keywordTexts
  by_cases hplain : plainWords words = [] <;> by_cases hdirectives : directives words = [] <;>
    simp [hplain, hdirectives]

theorem row_directives (hne : directives words ≠ []) :
    Row 3 ("#(?:".toList ++ alternation (directives words) ++ ")".toList)
      ({['#']} * oneOf (directives words)) :=
  ((part_char (by decide)).row.mono (by decide)).append (row_alternation hne)

theorem mem_plainWords : w ∈ oneOf (plainWords words) ↔ w ∈ words ∧ w.head? ≠ some '#' := by
  show w ∈ plainWords words ↔ _
  simp [plainWords]

theorem mem_hash_directives :
    w ∈ {['#']} * oneOf (directives words) ↔ w ∈ words ∧ w.head? = some '#' := by
  rw [mem_singleton_mul]
  constructor
  · rintro ⟨rest, hrest, rfl⟩
    obtain ⟨word, hword, hafter⟩ := List.mem_filterMap.mp hrest
    rw [Text.after?_eq_some_iff] at hafter
    exact ⟨hafter ▸ hword, rfl⟩
  · rintro ⟨hword, hhead⟩
    obtain ⟨rest, rfl⟩ := List.head?_eq_some_iff.mp hhead
    exact ⟨rest, List.mem_filterMap.mpr ⟨_, hword, Text.after?_eq_some_iff.mpr rfl⟩, rfl⟩

theorem mem_wordLike_iff : w ∈ words ∧ WordLike w ↔
    w ∈ bordered (oneOf (plainWords words)) ∨
      w ∈ {['#']} * oneOf (directives words) ∧ w.getLast?.any Unicode.isWord := by
  show _ ↔ (w ∈ oneOf (plainWords words) ∧ _) ∨ _
  rw [mem_plainWords, mem_hash_directives, WordLike]
  -- a hash is no word character
  have hhash : w.head? = some '#' → ¬w.head?.any Unicode.isWord := by
    intro h
    rw [h]
    decide
  tauto

/-- Every word is in one of the two alternatives. -/
theorem keywordTexts_ne_nil (hne : words ≠ []) : keywordTexts words ≠ [] := by
  obtain ⟨word, hword⟩ := List.exists_mem_of_ne_nil words hne
  by_cases hhead : word.head? = some '#'
  · obtain ⟨rest, hrest, -⟩ := mem_singleton_mul.mp (mem_hash_directives.mpr ⟨hword, hhead⟩)
    exact List.ne_nil_of_mem (mem_keywordTexts.mpr (.inr ⟨List.ne_nil_of_mem hrest, rfl⟩))
  · have hplain := List.ne_nil_of_mem (mem_plainWords.mpr ⟨hword, hhead⟩)
    exact List.ne_nil_of_mem (mem_keywordTexts.mpr (.inl ⟨hplain, rfl⟩))

theorem exists_course_keywordTexts (words : List (List Char)) :
    ∀ text ∈ keywordTexts words, ∃ R, Course 6 text R := by
  intro text htext
  rcases mem_keywordTexts.mp htext with ⟨hsome, rfl⟩ | ⟨hsome, rfl⟩
  · exact ⟨_, (course_bounded (row_alternation hsome).course).mono (by decide)⟩
  · have h : Course 3 (_ ++ boundary) _ :=
      (row_directives hsome).course.append (course_boundary.mono (by decide))
    exact ⟨_, h.mono (by decide)⟩

/-- The pattern for keywords matches those of them that have word characters at the word
boundaries. -/
theorem matches_keywordPattern (hne : words ≠ []) (scope : String) :
    (captured (keywordPattern words) scope).Matches {w | w ∈ words ∧ WordLike w} := by
  rw [keywordPattern_eq]
  obtain ⟨p, hread, hp⟩ :=
    exists_wholeWord (keywordTexts_ne_nil hne) (exists_course_keywordTexts words)
  refine ⟨_, p, rfl, hread, fun w => (hp w).trans ?_⟩
  show _ ↔ w ∈ words ∧ WordLike w
  rw [mem_wordLike_iff]
  constructor
  · rintro ⟨text, htext, hmoves⟩
    rcases mem_keywordTexts.mp htext with ⟨hsome, rfl⟩ | ⟨hsome, rfl⟩
    · exact .inl ((leadsThrough_bordered (row_alternation hsome) (by decide)).mp hmoves)
    · exact .inr ((leadsThrough_closed (row_directives hsome) (by decide)).mp hmoves)
  · rintro (hw | hw)
    · have hsome := List.ne_nil_of_mem hw.1
      exact ⟨_, mem_keywordTexts.mpr (.inl ⟨hsome, rfl⟩),
        (leadsThrough_bordered (row_alternation hsome) (by decide)).mpr hw⟩
    · obtain ⟨rest, hrest, -⟩ := mem_singleton_mul.mp hw.1
      have hsome := List.ne_nil_of_mem hrest
      exact ⟨_, mem_keywordTexts.mpr (.inr ⟨hsome, rfl⟩),
        (leadsThrough_closed (row_directives hsome) (by decide)).mpr hw⟩

/-! ## Prefixes -/

/-- The identifiers that go on after the prefix. -/
def extending (name : List Char) : Language Char :=
  {name} * (anyOf Text.isIdentChar * (anyOf Text.isIdentChar)∗)

theorem mem_extending : w ∈ extending name ↔
    ∃ rest, rest ≠ [] ∧ (∀ c ∈ rest, Text.isIdentChar c) ∧ w = name ++ rest := by
  rw [extending, mem_singleton_mul]
  constructor
  · rintro ⟨u, hu, rfl⟩
    obtain ⟨c, rest, hc, hrest, rfl⟩ := mem_anyOf_mul.mp hu
    exact ⟨_, List.cons_ne_nil _ _, List.forall_mem_cons.mpr ⟨hc, mem_kstar_anyOf.mp hrest⟩, rfl⟩
  · rintro ⟨rest, hne, hrest, rfl⟩
    obtain ⟨c, rest, rfl⟩ := List.exists_cons_of_ne_nil hne
    obtain ⟨hc, hrest⟩ := List.forall_mem_cons.mp hrest
    exact ⟨_, mem_anyOf_mul.mpr ⟨c, rest, hc, mem_kstar_anyOf.mpr hrest, rfl⟩, rfl⟩

theorem row_extending (name : List Char) :
    Row 6 (escape name ++ "[A-Za-z0-9_]+".toList) (extending name) :=
  (row_word name part_identChar.plus.row).mono (by decide)

theorem prefixPattern_eq (name : List Char) : prefixPattern name =
    boundary ++ (escape name ++ "[A-Za-z0-9_]+".toList) ++ boundary := by
  simp [prefixPattern]

theorem course_prefixPattern (name : List Char) : Course 6 (prefixPattern name)
    (Bounded fun s t => s.Through (extending name) t) := by
  rw [prefixPattern_eq]
  exact course_bounded (row_extending name).course

theorem matches_prefixPattern (name : List Char) (scope : String) :
    (captured (prefixPattern name) scope).Matches (bordered (extending name)) := by
  obtain ⟨p, hread, hp⟩ := exists_wholeWord (List.cons_ne_nil _ [])
    (List.forall_mem_singleton.mpr ⟨_, course_prefixPattern name⟩)
  refine ⟨_, p, rfl, by simpa [Text.join] using hread, fun w => (hp w).trans ?_⟩
  rw [← leadsThrough_bordered (row_extending name) (by decide), ← prefixPattern_eq]
  simp

end Grammar

end Lexicolor
