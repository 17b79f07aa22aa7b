import Mathlib
import Lexicolor.Proofs.Scope.WordPattern

/-!
# Splitting into words

A search finds the words of a text as stretches of it, from left to right. Over
letters and digits, it drops no small letter and no digit, and it drops a capital
where a run of capitals goes on from there up to a digit.
-/

namespace Lexicolor.Scope

open Pattern (Spot)
open Text

variable {cs capitals rest : List Char} {c : Char} {i start stop : Nat}

/-! ## What is dropped -/

/-- The first character is a capital, and behind it stand a run of capitals, which can be empty,
and then a capital and a digit. -/
inductive DropsFirst : List Char → Prop
  | intro {c d e : Char} {run rest : List Char} (hc : isCapital c) (hrun : ∀ x ∈ run, isCapital x)
      (hd : isCapital d) (he : e.isDigit) : DropsFirst (c :: (run ++ d :: e :: rest))

/-- Two capitals stand side by side, with a digit right behind them. -/
def CapitalsBeforeDigit (cs : List Char) : Prop :=
  ∃ c d e, isCapital c ∧ isCapital d ∧ e.isDigit ∧ [c, d, e] <:+: cs

theorem isCapital_or_isSmall (h : c.isAlphanum) : isCapital c ∨ isSmall c := by
  simp only [Char.isAlphanum, Char.isAlpha, isSmall, isCapital, Bool.or_eq_true] at *
  tauto

theorem not_isCapital_of_isDigit (h : c.isDigit) : ¬isCapital c :=
  not_isCapital_of_isSmall (by rw [isSmall, h, Bool.or_true])

theorem DropsFirst.head_isCapital (h : DropsFirst cs) : ∀ c ∈ cs.head?, isCapital c := by
  cases h with
  | intro hc => simpa using hc

/-- The digit comes behind the whole run of capitals. -/
theorem CapitalRun.dropsFirst_iff (h : CapitalRun capitals rest) :
    DropsFirst (capitals ++ rest) ↔ 2 ≤ capitals.length ∧ rest.head?.any Char.isDigit := by
  constructor
  · intro hdrops
    generalize htext : capitals ++ rest = text at hdrops
    cases hdrops with
    | @intro c d e run tail hc hrun hd he =>
        -- the digit ends the capitals, so they are those of the run and the two at its ends
        have hcapitals : ∀ x ∈ c :: (run ++ [d]), isCapital x := by
          simp only [List.mem_cons, List.mem_append, List.not_mem_nil, or_false]
          rintro x (rfl | hx | rfl)
          · exact hc
          · exact hrun x hx
          · exact hd
        have htail : ∀ x ∈ (e :: tail).head?, ¬isCapital x := by
          simpa using not_isCapital_of_isDigit he
        have hsplit : capitals ++ rest = c :: (run ++ [d]) ++ e :: tail := by simp [htext]
        have heq := h.takeWhile_eq
        rw [hsplit, takeWhile_append_of_head hcapitals htail] at heq
        subst heq
        obtain rfl := List.append_cancel_left hsplit
        exact ⟨by simp, by simpa using he⟩
  · rintro ⟨htwo, hdigit⟩
    cases capitals with
    | nil => simp at htwo
    | cons c capitals =>
        obtain ⟨hc, hcapitals⟩ := List.forall_mem_cons.mp h.capitals
        rcases List.eq_nil_or_concat capitals with rfl | ⟨run, d, rfl⟩
        · simp at htwo
        cases rest with
        | nil => simp at hdigit
        | cons e rest =>
            rw [List.concat_eq_append] at hcapitals ⊢
            have hdrops : DropsFirst (c :: (run ++ d :: e :: rest)) :=
              .intro hc (fun x hx => hcapitals x (List.mem_append_left _ hx))
                (hcapitals d (List.mem_append_right _ (List.mem_singleton_self d)))
                (by simpa using hdigit)
            simpa using hdrops

theorem exists_dropsFirst_iff : (∃ i, DropsFirst (cs.drop i)) ↔ CapitalsBeforeDigit cs := by
  constructor
  · rintro ⟨i, hi⟩
    generalize htext : cs.drop i = text at hi
    have hsuffix : text <:+: cs := htext ▸ (List.drop_suffix i cs).isInfix
    cases hi with
    | @intro c d e run rest hc hrun hd he =>
        rcases List.eq_nil_or_concat run with rfl | ⟨run, x, rfl⟩
        · refine ⟨c, d, e, hc, hd, he, List.IsInfix.trans ⟨[], rest, ?_⟩ hsuffix⟩
          rfl
        · rw [List.concat_eq_append] at hrun hsuffix
          have hx := hrun x (List.mem_append_right _ (List.mem_singleton_self x))
          refine ⟨x, d, e, hx, hd, he, List.IsInfix.trans ⟨c :: run, rest, ?_⟩ hsuffix⟩
          simp
  · rintro ⟨c, d, e, hc, hd, he, front, rest, rfl⟩
    refine ⟨front.length, ?_⟩
    rw [List.append_assoc, List.drop_left]
    exact @DropsFirst.intro c d e [] rest hc (by simp) hd he

/-! ## Words and what they leave out -/

theorem smallLength_le (capitals rest : List Char) :
    smallLength capitals rest ≤ (rest.takeWhile isSmall).length := by
  rw [smallLength]
  split <;> omega

theorem wordLength_le (cs : List Char) : wordLength cs ≤ cs.length := by
  obtain ⟨capitals, rest, rfl, h⟩ := exists_capitalRun cs
  have hacronym := acronymLength_le capitals rest
  have hsmall := smallLength_le capitals rest
  have hrun := (List.takeWhile_prefix isSmall (l := rest)).length_le
  rw [h.wordLength_eq, List.length_append]
  split
  · split <;> omega
  · omega

theorem not_isLower_of_isDigit (h : c.isDigit) : c.isLower = false := by
  simp only [Char.isDigit, Char.isLower, Bool.and_eq_true, decide_eq_true_eq, ge_iff_le,
    UInt32.le_iff_toNat_le, Bool.and_eq_false_iff, decide_eq_false_iff_not] at *
  simp at *
  omega

/-- No word starts at a run of several capitals before a digit. -/
theorem CapitalRun.wordLength_of_digit (h : CapitalRun capitals (c :: rest))
    (htwo : 2 ≤ capitals.length) (hc : c.isDigit) : wordLength (capitals ++ c :: rest) = 0 := by
  have hmany : ¬capitals.length ≤ 1 := by omega
  simp [h.wordLength_eq, acronymLength, smallLength, not_isLower_of_isDigit hc, hmany]

/-- Among letters and digits, a word starts where no capital is dropped. -/
theorem wordLength_eq_zero_iff (hcs : ∀ c ∈ cs, c.isAlphanum) (hne : cs ≠ []) :
    wordLength cs = 0 ↔ DropsFirst cs := by
  obtain ⟨capitals, rest, rfl, h⟩ := exists_capitalRun cs
  rw [h.dropsFirst_iff]
  cases rest with
  | nil =>
      rw [List.append_nil] at hne ⊢
      simp [wordLength_capitals h.capitals, hne]
  | cons c rest =>
      have hsmall : isSmall c :=
        (isCapital_or_isSmall (hcs c (by simp))).resolve_left (h.rest c rfl)
      by_cases htwo : 2 ≤ capitals.length
      · by_cases hdigit : c.isDigit
        · simp [h.wordLength_of_digit htwo hdigit, htwo, hdigit]
        · have hlower : c.isLower := by simpa [isSmall, hdigit] using hsmall
          have hpos : capitals.length - 1 ≠ 0 := by omega
          simp [h.wordLength_eq, acronymLength, hlower, hdigit, hpos]
      · have hone : capitals.length - 1 = 0 := by omega
        have hfew : capitals.length ≤ 1 := by omega
        simp [h.wordLength_eq, acronymLength, smallLength, htwo, hone, hfew, hsmall]

/-- No character of a word is dropped. -/
theorem not_dropsFirst_of_lt_wordLength (hi : i < wordLength cs) : ¬DropsFirst (cs.drop i) := by
  obtain ⟨capitals, rest, rfl, h⟩ := exists_capitalRun cs
  intro hdrops
  rcases Nat.lt_or_ge i capitals.length with hlt | hge
  · -- the run of capitals goes on to a digit, so that no word starts at any of them
    have htail : CapitalRun (capitals.drop i) rest :=
      ⟨fun c hc => h.capitals c (List.mem_of_mem_drop hc), h.rest⟩
    rw [List.drop_append_of_le_length hlt.le, htail.dropsFirst_iff, List.length_drop] at hdrops
    obtain ⟨htwo, hdigit⟩ := hdrops
    cases rest with
    | nil => simp at hdigit
    | cons c rest =>
        rw [h.wordLength_of_digit (by omega) (by simpa using hdigit)] at hi
        exact Nat.not_lt_zero i hi
  · -- behind the capital of a word stand its small letters and digits
    have hacronym := acronymLength_le capitals rest
    have hsmall := smallLength_le capitals rest
    have hlt : i - capitals.length < (rest.takeWhile isSmall).length := by
      rw [h.wordLength_eq] at hi
      split at hi
      · split at hi <;> omega
      · omega
    rw [List.drop_append, List.drop_of_length_le hge, List.nil_append] at hdrops
    obtain ⟨c, tail, hdrop, hc⟩ := drop_of_lt_takeWhile hlt
    rw [hdrop] at hdrops
    exact not_isCapital_of_isSmall hc (hdrops.head_isCapital c rfl)

theorem words_of_wordLength_eq_zero (h : wordLength cs = 0) : words cs = words cs.tail := by
  cases cs with
  | nil => rfl
  | cons c cs => rw [words, if_pos h, List.tail_cons]

theorem words_of_wordLength_ne_zero (h : wordLength cs ≠ 0) :
    words cs = cs.take (wordLength cs) :: words (cs.drop (wordLength cs)) := by
  cases cs with
  | nil => exact absurd rfl h
  | cons c cs => rw [words, if_neg h]

theorem flatten_words_sublist (cs : List Char) : (words cs).flatten.Sublist cs := by
  induction cs using words.induct with
  | case1 => simp [words]
  | case2 c rest h ih =>
      rw [words_of_wordLength_eq_zero h]
      exact ih.trans (List.sublist_cons_self c rest)
  | case3 c rest h ih =>
      rw [words_of_wordLength_ne_zero h, List.flatten_cons]
      conv_rhs => rw [← List.take_append_drop (wordLength (c :: rest)) (c :: rest)]
      exact (List.Sublist.refl _).append ih

/-- The words make up the text when no character of it is dropped. -/
theorem flatten_words_eq_iff (hcs : ∀ c ∈ cs, c.isAlphanum) :
    (words cs).flatten = cs ↔ ∀ i, ¬DropsFirst (cs.drop i) := by
  induction cs using words.induct with
  | case1 =>
      have hnil : ¬DropsFirst [] := fun h => by cases h
      simp [words, hnil]
  | case2 c rest h ih =>
      -- a character that starts no word is dropped, and never comes back
      have hdrops := (wordLength_eq_zero_iff hcs (List.cons_ne_nil c rest)).mp h
      have hne : (words (c :: rest)).flatten ≠ c :: rest := by
        intro heq
        have hle := (flatten_words_sublist rest).length_le
        rw [words_of_wordLength_eq_zero h, List.tail_cons] at heq
        rw [heq, List.length_cons] at hle
        omega
      exact iff_of_false hne fun hall => hall 0 hdrops
  | case3 c rest h ih =>
      rw [words_of_wordLength_ne_zero h, List.flatten_cons]
      conv_lhs => rhs; rw [← List.take_append_drop (wordLength (c :: rest)) (c :: rest)]
      rw [List.append_cancel_left_eq, ih fun c hc => hcs c (List.mem_of_mem_drop hc)]
      constructor
      · intro hall i hi
        rcases Nat.lt_or_ge i (wordLength (c :: rest)) with hlt | hge
        · exact not_dropsFirst_of_lt_wordLength hlt hi
        · refine hall (i - wordLength (c :: rest)) ?_
          rwa [List.drop_drop, Nat.add_sub_cancel' hge]
      · intro hall i
        rw [List.drop_drop]
        exact hall _

/-! ## Stretches -/

/-- A part of a text, from one column up to another. -/
structure Stretch where
  start : Nat
  stop : Nat
deriving DecidableEq

namespace Stretch

def Covers (stretch : Stretch) (i : Nat) : Prop := stretch.start ≤ i ∧ i < stretch.stop

/-- The characters of the stretch. -/
def textIn (stretch : Stretch) (cs : List Char) : List Char :=
  (cs.take stretch.stop).drop stretch.start

theorem textIn_ne_nil {stretch : Stretch} (h : stretch.start < stretch.stop)
    (hstop : stretch.stop ≤ cs.length) : stretch.textIn cs ≠ [] := by
  refine List.ne_nil_of_length_pos ?_
  rw [textIn, List.length_drop, List.length_take]
  omega

end Stretch

/-- The stretches that a search from a column on finds. Each one goes from the first column with a
match to the end of the preferred match, and the search goes on from there. -/
inductive Finds (matchAt? : Spot → Option Spot) (cs : List Char) : Nat → List Stretch → Prop
  | done {start : Nat} (hend : cs.length ≤ start) (hnone : matchAt? (.within cs start) = none) :
      Finds matchAt? cs start []
  | skip {start : Nat} {found : List Stretch} (hlt : start < cs.length)
      (hnone : matchAt? (.within cs start) = none) (hrest : Finds matchAt? cs (start + 1) found) :
      Finds matchAt? cs start found
  | found {start stop : Nat} {found : List Stretch} (hlt : start < stop) (hstop : stop ≤ cs.length)
      (hmatch : matchAt? (.within cs start) = some (.within cs stop))
      (hrest : Finds matchAt? cs stop found) : Finds matchAt? cs start (⟨start, stop⟩ :: found)

variable {found other : List Stretch} {matchAt? : Spot → Option Spot}

theorem Finds.unique (h : Finds matchAt? cs start found) (h' : Finds matchAt? cs start other) :
    found = other := by
  induction h generalizing other with
  | done hend hnone =>
      cases h' with
      | done => rfl
      | skip hlt => omega
      | found hlt hstop => omega
  | skip hlt hnone hrest ih =>
      cases h' with
      | done hend => omega
      | skip _ _ hrest' => exact ih hrest'
      | found _ _ hmatch => rw [hnone] at hmatch; cases hmatch
  | found hlt hstop hmatch hrest ih =>
      cases h' with
      | done hend => omega
      | skip _ hnone => rw [hnone] at hmatch; cases hmatch
      | found _ hstop' hmatch' hrest' =>
          obtain rfl := Spot.within_inj hstop hstop' (Option.some.inj (hmatch.symm.trans hmatch'))
          rw [ih hrest']

/-- The stretches lie behind the column, and none of them is empty. -/
theorem Finds.bounds (h : Finds matchAt? cs start found) : ∀ stretch ∈ found,
    start ≤ stretch.start ∧ stretch.start < stretch.stop ∧ stretch.stop ≤ cs.length := by
  induction h with
  | done => simp
  | skip hlt hnone hrest ih =>
      intro stretch hmem
      have := ih stretch hmem
      omega
  | found hlt hstop hmatch hrest ih =>
      refine List.forall_mem_cons.mpr ⟨⟨Nat.le_refl _, hlt, hstop⟩, fun stretch hmem => ?_⟩
      have := ih stretch hmem
      omega

theorem Finds.apart (h : Finds matchAt? cs start found) :
    found.Pairwise fun stretch next => stretch.stop ≤ next.start := by
  induction h with
  | done => exact .nil
  | skip _ _ _ ih => exact ih
  | found _ _ _ hrest ih => exact .cons (fun next hnext => (hrest.bounds next hnext).1) ih

/-! ## The stretches of the words -/

theorem wordAt?_within_eq_none : wordAt? (.within cs start) = none ↔
    wordLength (cs.drop start) = 0 := by
  rw [wordAt?_eq, Spot.rest_within]
  split <;> simp_all

theorem wordAt?_within_eq_some (hlt : start < stop) (hstop : stop ≤ cs.length) :
    wordAt? (.within cs start) = some (.within cs stop) ↔
      wordLength (cs.drop start) = stop - start := by
  have hle := wordLength_le (cs.drop start)
  rw [List.length_drop] at hle
  rw [wordAt?_eq, Spot.rest_within, Spot.advance_within]
  split
  next h => simp [h]; omega
  next h =>
    rw [Option.some_inj]
    constructor
    · intro heq
      have := Spot.within_inj (by omega) hstop heq
      omega
    · intro heq
      rw [heq, Nat.add_sub_cancel' hlt.le]

theorem exists_finds (cs : List Char) (start : Nat) : ∃ found, Finds wordAt? cs start found := by
  induction hleft : cs.length - start using Nat.strong_induction_on generalizing start with
  | _ left ih =>
      have hle := wordLength_le (cs.drop start)
      rw [List.length_drop] at hle
      by_cases hzero : wordLength (cs.drop start) = 0
      · have hnone := wordAt?_within_eq_none.mpr hzero
        rcases Nat.lt_or_ge start cs.length with hlt | hge
        · obtain ⟨found, hfound⟩ := ih _ (by omega) (start + 1) rfl
          exact ⟨found, .skip hlt hnone hfound⟩
        · exact ⟨[], .done hge hnone⟩
      · obtain ⟨found, hfound⟩ := ih _ (by omega) (start + wordLength (cs.drop start)) rfl
        have hlt : start < start + wordLength (cs.drop start) := by omega
        have hstop : start + wordLength (cs.drop start) ≤ cs.length := by omega
        have hmatch := (wordAt?_within_eq_some hlt hstop).mpr (Nat.add_sub_cancel_left ..).symm
        exact ⟨_, .found hlt hstop hmatch hfound⟩

/-- The texts of the stretches are the words. -/
theorem Finds.words_eq (h : Finds wordAt? cs start found) :
    words (cs.drop start) = found.map fun stretch => stretch.textIn cs := by
  induction h with
  | done hend => rw [List.drop_of_length_le hend, words, List.map_nil]
  | @skip start found _ hnone _ ih =>
      rw [words_of_wordLength_eq_zero (wordAt?_within_eq_none.mp hnone), List.tail_drop, ih]
  | @found start stop found hlt hstop hmatch _ ih =>
      have hlength := (wordAt?_within_eq_some hlt hstop).mp hmatch
      have hpos : wordLength (cs.drop start) ≠ 0 := by omega
      rw [words_of_wordLength_ne_zero hpos, hlength, List.drop_drop,
        Nat.add_sub_cancel' hlt.le, ih, List.map_cons, Stretch.textIn, List.drop_take]

/-- A column without a word is that of a capital that is dropped. -/
theorem Finds.uncovered_iff (h : Finds wordAt? cs start found) (hcs : ∀ c ∈ cs, c.isAlphanum)
    (hi : start ≤ i) (hlt : i < cs.length) :
    (∀ stretch ∈ found, ¬stretch.Covers i) ↔ DropsFirst (cs.drop i) := by
  -- a column that is skipped has no word; the columns of a word are covered by it
  induction h with
  | done hend => omega
  | @skip start found _ hnone hrest ih =>
      rcases Nat.eq_or_lt_of_le hi with rfl | hi
      · have hne : cs.drop start ≠ [] := by simpa using hlt
        have hdrops := (wordLength_eq_zero_iff (fun c hc => hcs c (List.mem_of_mem_drop hc)) hne).mp
          (wordAt?_within_eq_none.mp hnone)
        refine iff_of_true (fun stretch hmem hcovers => ?_) hdrops
        exact Nat.not_succ_le_self _ ((hrest.bounds stretch hmem).1.trans hcovers.1)
      · exact ih hi
  | @found start stop found hpos hstop hmatch _ ih =>
      rw [List.forall_mem_cons]
      rcases Nat.lt_or_ge i stop with hin | hbehind
      · have hword : i - start < wordLength (cs.drop start) := by
          rw [(wordAt?_within_eq_some hpos hstop).mp hmatch]
          omega
        have hkept := not_dropsFirst_of_lt_wordLength hword
        rw [List.drop_drop, Nat.add_sub_cancel' hi] at hkept
        exact iff_of_false (fun hnone => hnone.1 ⟨hi, hin⟩) hkept
      · have hfirst : ¬(⟨start, stop⟩ : Stretch).Covers i := fun hcovers =>
          absurd hcovers.2 (Nat.not_lt.mpr hbehind)
        rw [and_iff_right hfirst, ih hbehind]

/-- Over letters and digits, the words are what a search with the pattern of words finds: stretches
of the text in their order, none of which is empty and no two of which overlap. The search leaves
out the capitals from which a run of capitals goes on up to a digit, and nothing else. So the words
make up the text unless two capitals stand right before a digit. -/
theorem words_leave_out (cs : List Char) (hcs : ∀ c ∈ cs, c.isAlphanum) :
    (∃! found, Finds wordAt? cs 0 found) ∧
      (∀ found, Finds wordAt? cs 0 found →
        words cs = found.map (fun stretch => stretch.textIn cs) ∧
          (∀ stretch ∈ found, stretch.start < stretch.stop ∧ stretch.stop ≤ cs.length) ∧
          found.Pairwise (fun stretch next => stretch.stop ≤ next.start) ∧
          ∀ i < cs.length, (∀ stretch ∈ found, ¬stretch.Covers i) ↔ DropsFirst (cs.drop i)) ∧
      (∀ word ∈ words cs, word ≠ []) ∧
      ((words cs).flatten = cs ↔ ¬CapitalsBeforeDigit cs) := by
  obtain ⟨found, hfound⟩ := exists_finds cs 0
  have hwords : ∀ word ∈ words cs, word ≠ [] := by
    intro word hword
    rw [← List.drop_zero (l := cs), hfound.words_eq] at hword
    obtain ⟨stretch, hstretch, rfl⟩ := List.mem_map.mp hword
    have hbounds := (hfound.bounds stretch hstretch).2
    exact Stretch.textIn_ne_nil hbounds.1 hbounds.2
  refine ⟨⟨found, hfound, fun other h => h.unique hfound⟩, fun found hfound => ?_, hwords, ?_⟩
  · exact ⟨hfound.words_eq, fun stretch hmem => (hfound.bounds stretch hmem).2, hfound.apart,
      fun i hi => hfound.uncovered_iff hcs (Nat.zero_le i) hi⟩
  · rw [flatten_words_eq_iff hcs, ← exists_dropsFirst_iff, not_exists]

/-- Of the three capitals before the digit, two are dropped. -/
theorem words_leave_out_capitals : (∀ c ∈ "GPU2D".toList, c.isAlphanum) ∧
    CapitalsBeforeDigit "GPU2D".toList ∧ (words "GPU2D".toList).flatten ≠ "GPU2D".toList := by
  have hcs : ∀ c ∈ "GPU2D".toList, c.isAlphanum := by simp
  have hdigit : CapitalsBeforeDigit "GPU2D".toList :=
    ⟨'P', 'U', '2', by decide, by decide, by decide, ['G'], ['D'], rfl⟩
  exact ⟨hcs, hdigit, fun heq => (words_leave_out _ hcs).2.2.2.mp heq hdigit⟩

end Lexicolor.Scope
