import Mathlib
import Lexicolor.Proofs.Grammar.WholeWords
import Lexicolor.Proofs.Pattern.Preference

/-!
# The longest keyword

In a pattern the first of several alternatives counts, not the longest. The
pattern for keywords still matches the longest keyword that stands at a place, as
longer keywords come first in it and a word boundary must follow.
-/

namespace Lexicolor.Grammar

open Pattern Text

variable {words : List (List Char)} {word text : List Char} {s t : Spot} {i : Nat}

/-! ## The longest word -/

/-- What a search from the longest on finds has the most bytes of all that will do. -/
theorem byteLength_le_of_find?_longestFirst {ok : List Char → Bool}
    (h : (longestFirst id words).find? ok = some word) :
    ∀ other ∈ words, ok other → byteLength other ≤ byteLength word := by
  obtain ⟨-, before, after, heq, hbefore⟩ := List.find?_eq_some_iff_append.mp h
  intro other hother hdoes
  have hsorted := pairwise_longestFirst id words
  have hmem : other ∈ longestFirst id words := mem_longestFirst.mpr hother
  rw [heq] at hsorted hmem
  rcases List.mem_append.mp hmem with hmem | hmem
  · exact absurd (hbefore _ hmem) (by simp [hdoes])
  rcases List.mem_cons.mp hmem with rfl | hmem
  · exact Nat.le_refl _
  · exact (List.pairwise_cons.mp (List.pairwise_append.mp hsorted).2.1).1 _ hmem

/-- Of the words that will do, all of which start the text, a search from the longest on finds the
one with the most characters. -/
theorem find?_longestFirst_eq_some_iff {ok : List Char → Bool}
    (hok : ∀ word ∈ words, ok word → word <+: text) :
    (longestFirst id words).find? ok = some word ↔
      word ∈ words ∧ ok word ∧ ∀ other ∈ words, ok other → other.length ≤ word.length := by
  have hfound {word : List Char} (h : (longestFirst id words).find? ok = some word) :
      word ∈ words ∧ ok word ∧ ∀ other ∈ words, ok other → other.length ≤ word.length := by
    have hmem := mem_longestFirst.mp (List.mem_of_find?_eq_some h)
    have hword := List.find?_some h
    refine ⟨hmem, hword, fun other hother hdoes => ?_⟩
    by_contra hlt
    -- the text starts with both, so the longer one has more bytes
    obtain ⟨rest, rfl⟩ := List.prefix_of_prefix_length_le (hok word hmem hword)
      (hok other hother hdoes) (Nat.le_of_not_le hlt)
    have hne : rest ≠ [] := by
      rintro rfl
      simp at hlt
    exact absurd (byteLength_le_of_find?_longestFirst h _ hother hdoes)
      (Nat.not_le.mpr (byteLength_lt hne))
  refine ⟨hfound, fun ⟨hmem, hword, hlongest⟩ => ?_⟩
  obtain ⟨first, hfirst⟩ := Option.isSome_iff_exists.mp
    (List.find?_isSome.mpr ⟨word, mem_longestFirst.mpr hmem, hword⟩)
  obtain ⟨hmem', hword', hlongest'⟩ := hfound hfirst
  -- two words of one length at the start of one text are the same
  have hlength := Nat.le_antisymm (hlongest' word hmem hword) (hlongest first hmem' hword')
  have hfront := List.prefix_of_prefix_length_le (hok word hmem hword) (hok first hmem' hword')
    (Nat.le_of_eq hlength)
  rw [hfirst, hfront.eq_of_length hlength]

/-! ## The pattern that is read -/

/-- The words in a group, the longest first. -/
def wordGroup (words : List (List Char)) : Leveled Pattern :=
  let group := OpenGroup.groupOf
    ((longestFirst id words).map fun word => word.map fun c => ⟨char c, 0⟩)
  ⟨group.value, group.levels + 1⟩

/-- The rows for plain words and for directives, as far as there are any. -/
def keywordRows (words : List (List Char)) : List (List (Leveled Pattern)) :=
  (if (plainWords words).isEmpty then []
    else [[⟨place .boundary, 0⟩, wordGroup (plainWords words), ⟨place .boundary, 0⟩]]) ++
  (if (directives words).isEmpty then []
    else [[⟨char '#', 0⟩, wordGroup (directives words), ⟨place .boundary, 0⟩]])

theorem longestFirst_ne_nil (hne : words ≠ []) : longestFirst id words ≠ [] := by
  obtain ⟨word, hword⟩ := List.exists_mem_of_ne_nil words hne
  exact List.ne_nil_of_mem (mem_longestFirst.mpr hword)

theorem readsAs_alternation (hne : words ≠ []) :
    ReadsAs true ("(?:".toList ++ alternation words ++ ")".toList) [wordGroup words] := by
  refine readsAs_group Opening.uncaptured ?_ ?_
  · simpa using longestFirst_ne_nil hne
  · rw [List.forall₂_map_left_iff, List.forall₂_map_right_iff, List.forall₂_same]
    exact fun word _ => readsAs_escape word

theorem levels_wordGroup_le (words : List (List Char)) : (wordGroup words).levels ≤ 3 := by
  refine Nat.succ_le_succ (OpenGroup.levels_groupOf_le (List.forall_mem_map.mpr ?_))
  exact fun word _ => List.forall_mem_map.mpr fun _ _ => Nat.le_refl 0

theorem readsAs_keywordTexts (words : List (List Char)) :
    List.Forall₂ (ReadsAs false) (keywordTexts words) (keywordRows words) := by
  have hboundary := readsAs_boundary.unsettle
  refine List.rel_append ?_ ?_
  · split
    next => exact .nil
    next h =>
      have hwords := readsAs_alternation (mt List.isEmpty_iff.mpr h)
      refine .cons ?_ .nil
      simpa [boundary] using (hboundary.append hwords.unsettle).append hboundary
  · split
    next => exact .nil
    next h =>
      have hwords := readsAs_alternation (mt List.isEmpty_iff.mpr h)
      have hhash : ReadsAs false ['#'] [⟨char '#', 0⟩] := (readsAs_char (by decide)).unsettle
      refine .cons ?_ .nil
      simpa [boundary] using (hhash.append hwords.unsettle).append hboundary

theorem read_keywordPattern (hne : words ≠ []) :
    Pattern.read (keywordPattern words) = .ok (OpenGroup.groupOf (keywordRows words)).value := by
  rw [keywordPattern_eq]
  refine read_alternatives (keywordTexts_ne_nil hne) (readsAs_keywordTexts words) ?_
  have hlevels : ∀ row ∈ keywordRows words, ∀ p ∈ row, p.levels ≤ 3 := by
    have hwords := levels_wordGroup_le
    intro row hrow
    rcases List.mem_append.mp hrow with hrow | hrow
    all_goals
      split at hrow
      · cases hrow
      · cases List.mem_singleton.mp hrow
        simp [hwords]
  exact Nat.le_trans (OpenGroup.levels_groupOf_le hlevels) (by decide)

/-! ## The word that is matched -/

/-- The word stands at the place, with the word boundaries that a keyword asks for: one at its end,
and one at its start unless it starts with a hash. -/
structure Stands (s : Spot) (word : List Char) : Prop where
  isPrefix : word <+: s.rest
  opens : word.head? = some '#' ∨ Assertion.boundary.holds s
  closes : Assertion.boundary.holds (s.advance word.length)

instance : Decidable (Stands s word) :=
  decidable_of_iff (word <+: s.rest ∧ (word.head? = some '#' ∨ Assertion.boundary.holds s) ∧
    Assertion.boundary.holds (s.advance word.length))
    ⟨fun ⟨h, h', h''⟩ => ⟨h, h', h''⟩, fun ⟨h, h', h''⟩ => ⟨h, h', h''⟩⟩

/-- The text goes on with the word to a word boundary. -/
def reachesBoundary (s : Spot) (word : List Char) : Bool :=
  word <+: s.rest && Assertion.boundary.holds (s.advance word.length)

theorem find?_ends_wordGroup (hne : words ≠ []) :
    ((wordGroup words).value.ends s).find? Assertion.boundary.holds =
      ((longestFirst id words).find? (reachesBoundary s)).map fun word =>
        s.advance word.length := by
  have hword (word : List Char) :
      ((seqAll (word.map char)).ends s).find? Assertion.boundary.holds =
        (Option.guard (reachesBoundary s) word).map fun word => s.advance word.length := by
    rw [ends_word, Option.guard, reachesBoundary]
    by_cases hfront : word <+: s.rest <;>
      by_cases hholds : Assertion.boundary.holds (s.advance word.length) <;>
      simp [hfront, hholds]
  have hgroup : (wordGroup words).value =
      altAll ((longestFirst id words).map fun word => seqAll (word.map char)) := by
    simp [wordGroup, OpenGroup.groupOf, OpenGroup.rowOf, Function.comp_def]
  rw [hgroup, find?_ends_altAll (by simpa using longestFirst_ne_nil hne), List.findSome?_map,
    List.find?_eq_findSome?_guard, List.map_findSome?]
  exact congrArg (List.findSome? · _) (funext hword)

/-- The preferred match of the row for plain words. -/
def plainMatch? (words : List (List Char)) (s : Spot) : Option Spot :=
  if Assertion.boundary.holds s then
    ((longestFirst id (plainWords words)).find? (reachesBoundary s)).map fun word =>
      s.advance word.length
  else none

/-- The preferred match of the row for directives. -/
def directiveMatch? (words : List (List Char)) (s : Spot) : Option Spot :=
  if s.rest.head? = some '#' then
    ((longestFirst id (directives words)).find? (reachesBoundary (s.advance 1))).map fun word =>
      (s.advance 1).advance word.length
  else none

theorem matchAt?_keywordRows (hne : words ≠ []) (s : Spot) :
    (OpenGroup.groupOf (keywordRows words)).value.matchAt? s =
      (plainMatch? words s).or (directiveMatch? words s) := by
  have hrows : keywordRows words ≠ [] := by
    have hlength := (readsAs_keywordTexts words).length_eq
    have hpos := List.length_pos_of_ne_nil (keywordTexts_ne_nil hne)
    exact List.ne_nil_of_length_pos (hlength ▸ hpos)
  have hsome : (OpenGroup.groupOf (keywordRows words)).value.matchAt? s =
      (keywordRows words).findSome? fun row => (OpenGroup.rowOf row).value.matchAt? s := by
    rw [OpenGroup.groupOf, matchAt?_altAll (by simpa using hrows), List.findSome?_map]
    rfl
  -- one row for the plain words and one for the directives, either of which may be missing
  rw [hsome, keywordRows, List.findSome?_append]
  congr 1
  · rw [plainMatch?]
    by_cases hplain : plainWords words = []
    · simp [hplain, longestFirst]
    · rw [if_neg (by simpa using hplain), List.findSome?_singleton]
      show (seq (place .boundary) (seq _ (seq (place .boundary) empty))).matchAt? s = _
      rw [matchAt?_place_seq, matchAt?_seq_place, find?_ends_wordGroup hplain]
  · rw [directiveMatch?]
    by_cases hdirectives : directives words = []
    · simp [hdirectives, longestFirst]
    · rw [if_neg (by simpa using hdirectives), List.findSome?_singleton]
      show (seq (char '#') (seq _ (seq (place .boundary) empty))).matchAt? s = _
      rw [matchAt?_seq_char, matchAt?_seq_place, find?_ends_wordGroup hdirectives]

theorem stands_plain_iff (h : word.head? ≠ some '#') :
    Stands s word ↔ Assertion.boundary.holds s ∧ reachesBoundary s word := by
  rw [reachesBoundary, Bool.and_eq_true, decide_eq_true_eq]
  constructor
  · rintro ⟨hfront, hopens, hcloses⟩
    exact ⟨hopens.resolve_left h, hfront, hcloses⟩
  · rintro ⟨hopens, hfront, hcloses⟩
    exact ⟨hfront, .inr hopens, hcloses⟩

theorem stands_hash_iff : Stands s ('#' :: word) ↔
    s.rest.head? = some '#' ∧ reachesBoundary (s.advance 1) word := by
  have hadvance : (s.advance 1).advance word.length = s.advance ('#' :: word).length := by
    rw [Spot.advance_advance, List.length_cons, Nat.add_comm]
  rw [reachesBoundary, Bool.and_eq_true, decide_eq_true_eq, hadvance, Spot.rest_advance,
    List.drop_one]
  constructor
  · rintro ⟨⟨rest, hfront⟩, -, hcloses⟩
    rw [← hfront]
    exact ⟨rfl, ⟨rest, rfl⟩, hcloses⟩
  · rintro ⟨hhead, ⟨rest, hfront⟩, hcloses⟩
    obtain ⟨tail, htail⟩ := List.head?_eq_some_iff.mp hhead
    refine ⟨⟨rest, ?_⟩, .inl rfl, hcloses⟩
    rw [List.cons_append, hfront, htail, List.tail_cons]

/-- Of the words that stand at the place, this is one with the most characters. -/
structure Longest (words : List (List Char)) (s : Spot) (word : List Char) : Prop where
  mem : word ∈ words
  stands : Stands s word
  length_le : ∀ other ∈ words, Stands s other → other.length ≤ word.length

/-- Behind a common front a search from the longest word on finds the longest that stands. -/
theorem find?_eq_some_iff_longest {ok : List Char → Bool} (front : List Char)
    (h : ∀ word ∈ words, (ok word ↔ Stands s (front ++ word))) :
    (longestFirst id words).find? ok = some word ↔
      Longest (words.map (front ++ ·)) s (front ++ word) := by
  have hfront : ∀ word ∈ words, ok word → word <+: s.rest.drop front.length := by
    intro word hword hok
    obtain ⟨rest, hrest⟩ := ((h word hword).mp hok).isPrefix
    exact ⟨rest, by rw [← hrest, List.append_assoc, List.drop_left]⟩
  have hmem : front ++ word ∈ words.map (front ++ ·) ↔ word ∈ words := by simp
  rw [find?_longestFirst_eq_some_iff hfront]
  constructor
  · rintro ⟨hword, hok, hlongest⟩
    refine ⟨hmem.mpr hword, (h word hword).mp hok, List.forall_mem_map.mpr fun other hother => ?_⟩
    intro hstands
    simpa using hlongest other hother ((h other hother).mpr hstands)
  · rintro ⟨hword, hstands, hlongest⟩
    refine ⟨hmem.mp hword, (h word (hmem.mp hword)).mpr hstands, fun other hother hok => ?_⟩
    simpa using hlongest _ (List.mem_map_of_mem hother) ((h other hother).mp hok)

theorem plainMatch?_eq_some_iff : plainMatch? words s = some t ↔
    ∃ word, Longest (plainWords words) s word ∧ t = s.advance word.length := by
  have hstands : ∀ word ∈ plainWords words, (Stands s word ↔
      Assertion.boundary.holds s ∧ reachesBoundary s word) :=
    fun _ hword => stands_plain_iff (mem_plainWords.mp hword).2
  rw [plainMatch?]
  split
  next hs =>
    have hfind (word : List Char) :
        (longestFirst id (plainWords words)).find? (reachesBoundary s) = some word ↔
          Longest ((plainWords words).map ([] ++ ·)) s ([] ++ word) :=
      find?_eq_some_iff_longest [] fun word hword =>
        ((hstands word hword).trans (and_iff_right hs)).symm
    rw [Option.map_eq_some_iff]
    exact exists_congr fun word => and_congr (by simpa using hfind word) eq_comm
  next hs =>
    refine iff_of_false (by simp) ?_
    rintro ⟨word, hword, -⟩
    exact hs ((hstands word hword.mem).mp hword.stands).1

theorem directiveMatch?_eq_some_iff : directiveMatch? words s = some t ↔
    ∃ word, Longest ((directives words).map (['#'] ++ ·)) s word ∧ t = s.advance word.length := by
  rw [directiveMatch?]
  split
  next hs =>
    have hfind (word : List Char) :
        (longestFirst id (directives words)).find? (reachesBoundary (s.advance 1)) = some word ↔
          Longest ((directives words).map (['#'] ++ ·)) s (['#'] ++ word) :=
      find?_eq_some_iff_longest ['#'] fun _ _ =>
        (stands_hash_iff.trans (and_iff_right hs)).symm
    simp only [Option.map_eq_some_iff, hfind, Spot.advance_advance]
    constructor
    · rintro ⟨word, hword, rfl⟩
      exact ⟨_, hword, by rw [List.length_append, List.length_singleton]⟩
    · rintro ⟨word, hword, rfl⟩
      obtain ⟨rest, -, rfl⟩ := List.mem_map.mp hword.mem
      exact ⟨rest, hword, by rw [List.length_append, List.length_singleton]⟩
  next hs =>
    refine iff_of_false (by simp) ?_
    rintro ⟨word, hword, -⟩
    obtain ⟨rest, -, rfl⟩ := List.mem_map.mp hword.mem
    exact hs (stands_hash_iff.mp hword.stands).1

/-! ## Both kinds of keywords -/

theorem mem_map_hash_directives :
    word ∈ (directives words).map (['#'] ++ ·) ↔ word ∈ words ∧ word.head? = some '#' := by
  rw [← mem_hash_directives, mem_singleton_mul, List.mem_map]
  exact exists_congr fun rest => and_congr_right fun _ => eq_comm

/-- A word with characters that stands at a place starts as the text goes on there. -/
theorem Stands.head?_eq (h : Stands s word) (hne : word ≠ []) : word.head? = s.rest.head? := by
  obtain ⟨c, word, rfl⟩ := List.exists_cons_of_ne_nil hne
  obtain ⟨rest, hrest⟩ := h.isPrefix
  rw [← hrest]
  rfl

/-- Words of different kinds do not stand at one place. -/
theorem longest_iff (hne : ∀ word ∈ words, word ≠ []) : Longest words s word ↔
    Longest (plainWords words) s word ∨ Longest ((directives words).map (['#'] ++ ·)) s word := by
  have hhead {word other : List Char} (hword : word ∈ words) (hother : other ∈ words)
      (h : Stands s word) (h' : Stands s other) : word.head? = other.head? :=
    (h.head?_eq (hne word hword)).trans (h'.head?_eq (hne other hother)).symm
  constructor
  · rintro ⟨hmem, hstands, hlongest⟩
    by_cases hhash : word.head? = some '#'
    · refine .inr ⟨mem_map_hash_directives.mpr ⟨hmem, hhash⟩, hstands, fun other hother => ?_⟩
      exact hlongest other (mem_map_hash_directives.mp hother).1
    · refine .inl ⟨mem_plainWords.mpr ⟨hmem, hhash⟩, hstands, fun other hother => ?_⟩
      exact hlongest other (mem_plainWords.mp hother).1
  · rintro (⟨hmem, hstands, hlongest⟩ | ⟨hmem, hstands, hlongest⟩)
    · obtain ⟨hmem, hplain⟩ := mem_plainWords.mp hmem
      refine ⟨hmem, hstands, fun other hother h => hlongest other ?_ h⟩
      exact mem_plainWords.mpr ⟨hother, hhead hmem hother hstands h ▸ hplain⟩
    · obtain ⟨hmem, hhash⟩ := mem_map_hash_directives.mp hmem
      refine ⟨hmem, hstands, fun other hother h => hlongest other ?_ h⟩
      exact mem_map_hash_directives.mpr ⟨hother, hhead hmem hother hstands h ▸ hhash⟩

theorem matchAt?_eq_some_iff_longest (hsome : words ≠ []) (hne : ∀ word ∈ words, word ≠ []) :
    (OpenGroup.groupOf (keywordRows words)).value.matchAt? s = some t ↔
      ∃ word, Longest words s word ∧ t = s.advance word.length := by
  rw [matchAt?_keywordRows hsome, Option.or_eq_some_iff, plainMatch?_eq_some_iff,
    directiveMatch?_eq_some_iff]
  constructor
  · rintro (⟨word, hword, rfl⟩ | ⟨-, word, hword, rfl⟩)
    · exact ⟨word, (longest_iff hne).mpr (.inl hword), rfl⟩
    · exact ⟨word, (longest_iff hne).mpr (.inr hword), rfl⟩
  · rintro ⟨word, hword, rfl⟩
    rcases (longest_iff hne).mp hword with hplain | hdirective
    · exact .inl ⟨word, hplain, rfl⟩
    cases hfound : plainMatch? words s with
    | none => exact .inr ⟨rfl, word, hdirective, rfl⟩
    | some found =>
        -- a plain word could only be another longest one
        obtain ⟨other, hother, -⟩ := plainMatch?_eq_some_iff.mp hfound
        have hother' := (longest_iff hne).mpr (.inl hother)
        have hlength := Nat.le_antisymm (hother'.length_le word hword.mem hword.stands)
          (hword.length_le other hother'.mem hother'.stands)
        exact .inl ⟨other, hother, by rw [hlength]⟩

theorem exists_longest_iff : (∃ word, Longest words s word) ↔ ∃ word ∈ words, Stands s word := by
  classical
  constructor
  · rintro ⟨word, hword⟩
    exact ⟨word, hword.mem, hword.stands⟩
  · rintro ⟨word, hmem, hstands⟩
    obtain ⟨longest, hlongest, hmost⟩ := (words.toFinset.filter (Stands s)).exists_max_image
      List.length ⟨word, by simp [hmem, hstands]⟩
    simp only [Finset.mem_filter, List.mem_toFinset] at hlongest hmost
    exact ⟨longest, hlongest.1, hlongest.2, fun other hother h => hmost other ⟨hother, h⟩⟩

/-- The pattern for keywords matches at the places where one of them stands, and there the longest
of those that do. So no keyword is cut short by another. -/
theorem keywordPattern_matches_longest (hsome : words ≠ []) (hne : ∀ word ∈ words, word ≠ []) :
    ∃ p, Pattern.read (keywordPattern words) = .ok p ∧ ∀ text i,
      ((p.matchAt? (.within text i)).isSome ↔ ∃ word ∈ words, Stands (.within text i) word) ∧
      ∀ t, p.matchAt? (.within text i) = some t ↔
        ∃ word, Longest words (.within text i) word ∧ t = .within text (i + word.length) := by
  refine ⟨_, read_keywordPattern hsome, fun text i => ?_⟩
  have hmatch (t : Spot) := matchAt?_eq_some_iff_longest (s := .within text i) (t := t) hsome hne
  simp only [Spot.advance_within] at hmatch
  refine ⟨?_, hmatch⟩
  rw [← exists_longest_iff, Option.isSome_iff_exists]
  constructor
  · rintro ⟨t, ht⟩
    obtain ⟨word, hword, -⟩ := (hmatch t).mp ht
    exact ⟨word, hword⟩
  · rintro ⟨word, hword⟩
    exact ⟨_, (hmatch _).mpr ⟨word, hword, rfl⟩⟩

/-- A word boundary inside of `a-b` does not end it. -/
theorem keywordPattern_matches_longest_hyphen :
    [['a'], ['a', '-', 'b'], ['#', 'a']] ≠ ([] : List (List Char)) ∧
      (∀ word ∈ [['a'], ['a', '-', 'b'], ['#', 'a']], word ≠ []) ∧
      ∃ p, Pattern.read (keywordPattern [['a'], ['a', '-', 'b'], ['#', 'a']]) = .ok p ∧
        p.matchAt? (.within "(a-b)".toList 1) = some (.within "(a-b)".toList 4) := by
  refine ⟨by decide, by decide, ?_⟩
  obtain ⟨p, hread, hp⟩ := @keywordPattern_matches_longest
    [['a'], ['a', '-', 'b'], ['#', 'a']] (by decide) (by decide)
  refine ⟨p, hread, ((hp _ 1).2 _).mpr ⟨['a', '-', 'b'], ⟨by decide, ?_, by decide⟩, rfl⟩⟩
  exact ⟨by decide, .inr (by decide), by decide⟩

end Lexicolor.Grammar
