import Mathlib
import Lexicolor.Proofs.Pattern.Preference
import Lexicolor.Proofs.Pattern.Reading
import Lexicolor.Proofs.Scope.Compound

/-!
# The pattern of words

Words are what a search for `[A-Z]+(?=[A-Z][a-z]|$)|[A-Z]?[a-z0-9]+` finds. Of all
the lengths to which a run of capitals can be shortened, at most one has a border
behind it. So the preferred match at a place is the word whose length `wordLength`
gives.
-/

namespace Lexicolor.Scope

open Pattern Text

variable {cs capitals rest : List Char} {c : Char} {s : Spot} {n : Nat}

/-! ## The pattern -/

def capitalSpans : List Span := [('A', 'Z')]

def lowerSpans : List Span := [('a', 'z')]

def smallSpans : List Span := [('a', 'z'), ('0', '9')]

/-- A character of the spans. -/
def anyIn (spans : List Span) : Pattern := one (Span.union spans).value

/-- A run of capitals. -/
def acronym : Pattern := seqAll [repeated (anyIn capitalSpans) 1 none true]

/-- What follows an acronym, without being part of it: a capital with a small letter behind it, or
the end. -/
def acronymBorder : Pattern :=
  altAll [seqAll [anyIn capitalSpans, anyIn lowerSpans], seqAll [place .textEnd]]

/-- Small letters and digits, with a capital before them or not. -/
def smallWord : Pattern :=
  seqAll [repeated (anyIn capitalSpans) 0 (some 1) true, repeated (anyIn smallSpans) 1 none true]

/-- The preferred match at a place: an acronym before its border, or else a small word. -/
def wordAt? (s : Spot) : Option Spot :=
  ((acronym.ends s).find? fun t => (acronymBorder.matchAt? t).isSome).or (smallWord.matchAt? s)

theorem readsAs_capital : ReadsAs true "[A-Z]".toList [⟨anyIn capitalSpans, 1⟩] :=
  readsAs_spans capitalSpans (by decide) (by decide) (by decide)

theorem readsAs_lower : ReadsAs true "[a-z]".toList [⟨anyIn lowerSpans, 1⟩] :=
  readsAs_spans lowerSpans (by decide) (by decide) (by decide)

theorem readsAs_small : ReadsAs true "[a-z0-9]".toList [⟨anyIn smallSpans, 2⟩] :=
  readsAs_spans smallSpans (by decide) (by decide) (by decide)

theorem read_acronym : read "[A-Z]+".toList = .ok acronym :=
  read_of_readsAs (readsAs_capital.repeated (.inr (.inl rfl)) fun _ => rfl)
    (List.forall_mem_singleton.mpr (Nat.le_refl 2)) (by decide)

theorem read_smallWord : read "[A-Z]?[a-z0-9]+".toList = .ok smallWord := by
  have hcapital := readsAs_capital.repeated (.inr (.inr rfl)) fun _ => rfl
  have hsmall := readsAs_small.repeated (.inr (.inl rfl)) fun _ => rfl
  exact read_of_readsAs (hcapital.append hsmall)
    (List.forall_mem_cons.mpr ⟨Nat.le_succ 2, List.forall_mem_singleton.mpr (Nat.le_refl 3)⟩)
    (by decide)

theorem read_acronymBorder : read "[A-Z][a-z]|$".toList = .ok acronymBorder := by
  have hpair := readsAs_capital.unsettle.append readsAs_lower.unsettle
  have hend : ReadsAs false ['$'] [⟨place .textEnd, 0⟩] := readsAs_place (.inr ⟨rfl, rfl⟩)
  exact read_alternatives (List.cons_ne_nil _ _) (.cons hpair (.cons hend .nil)) (by decide)

/-! ## The classes -/

theorem holds_capitalSpans : (Span.union capitalSpans).value.holds = isCapital := by
  funext c
  rw [holds_union]
  simp [capitalSpans, isCapital, Char.isUpper, Char.le_def]

theorem holds_lowerSpans : (Span.union lowerSpans).value.holds = Char.isLower := by
  funext c
  rw [holds_union]
  simp [lowerSpans, Char.isLower, Char.le_def]

theorem holds_smallSpans : (Span.union smallSpans).value.holds = isSmall := by
  funext c
  rw [holds_union]
  simp [smallSpans, isSmall, Char.isLower, Char.isDigit, Char.le_def]

/-! ## Runs of capitals -/

/-- The text starts with the capitals and has no more of them there. -/
structure CapitalRun (capitals rest : List Char) : Prop where
  capitals : ∀ c ∈ capitals, isCapital c
  rest : ∀ c ∈ rest.head?, ¬isCapital c

theorem capitalRun (cs : List Char) :
    CapitalRun (cs.takeWhile isCapital) (cs.dropWhile isCapital) := by
  refine ⟨fun c hc => List.mem_takeWhile_imp hc, fun c hc => ?_⟩
  have hnot := List.head?_dropWhile_not isCapital cs
  rw [Option.mem_def.mp hc] at hnot
  simpa using hnot

theorem exists_capitalRun (cs : List Char) :
    ∃ capitals rest, cs = capitals ++ rest ∧ CapitalRun capitals rest :=
  ⟨_, _, List.takeWhile_append_dropWhile.symm, capitalRun cs⟩

theorem CapitalRun.takeWhile_eq (h : CapitalRun capitals rest) :
    (capitals ++ rest).takeWhile isCapital = capitals := takeWhile_append_of_head h.capitals h.rest

theorem isSome_acronymBorder {t : Spot} : (acronymBorder.matchAt? t).isSome ↔
    t.rest = [] ∨ ∃ c d tail, t.rest = c :: d :: tail ∧ isCapital c ∧ d.isLower := by
  have hpair : (seqAll [anyIn capitalSpans, anyIn lowerSpans]).matchAt? t =
      if t.rest.head?.any isCapital then
        if (t.advance 1).rest.head?.any Char.isLower then some ((t.advance 1).advance 1) else none
      else none := by
    show (seq (one _) (seq (one _) empty)).matchAt? t = _
    rw [matchAt?_seq_one, matchAt?_seq_one, holds_capitalSpans, holds_lowerSpans]
    rfl
  have hend : (seqAll [place .textEnd]).matchAt? t = if t.rest.isEmpty then some t else none := by
    show (seq (place .textEnd) empty).matchAt? t = _
    rw [matchAt?_place_seq]
    rfl
  show ((alt _ (seqAll [place .textEnd])).matchAt? t).isSome ↔ _
  rw [matchAt?_alt, hpair, hend]
  obtain ⟨last, _ | ⟨c, _ | ⟨d, tail⟩⟩⟩ := t
  · simp
  · simp [Spot.rest_advance]
  · by_cases hc : isCapital c <;> by_cases hd : d.isLower <;> simp [hc, hd]

/-- The length of an acronym in front of the rest: all capitals at the end of the text, and all but
the last before a small letter. -/
def acronymLength (capitals rest : List Char) : Nat :=
  if rest = [] then capitals.length
  else if rest.head?.any Char.isLower then capitals.length - 1
  else 0

theorem not_isCapital_of_isLower (h : c.isLower) : ¬isCapital c :=
  not_isCapital_of_isSmall (isSmall_of_isLower h)

/-- Of all the lengths to which a run of capitals can be shortened, one has a border behind it. -/
theorem CapitalRun.border_iff (h : CapitalRun capitals rest) (hs : s.rest = capitals ++ rest)
    (hn : n ≤ capitals.length) (hpos : 0 < n) :
    (acronymBorder.matchAt? (s.advance n)).isSome ↔ n = acronymLength capitals rest := by
  have hlength : (capitals.drop n).length = capitals.length - n := List.length_drop
  have hcapitals : ∀ c ∈ capitals.drop n, isCapital c := fun c hc =>
    h.capitals c (List.mem_of_mem_drop hc)
  rw [isSome_acronymBorder, Spot.rest_advance, hs, List.drop_append_of_le_length hn, acronymLength]
  rcases hdrop : capitals.drop n with _ | ⟨c, _ | ⟨d, more⟩⟩
  all_goals
    rw [hdrop] at hlength hcapitals
    simp only [List.length_nil, List.length_cons] at hlength
  · -- the whole run
    cases rest with
    | nil => simp; omega
    | cons c rest =>
        have hc : isCapital c = false := by simpa using h.rest c rfl
        by_cases hlower : c.isLower <;> simp [hc, hlower] <;> omega
  · -- all but the last capital
    cases rest with
    | nil => simp; omega
    | cons d rest =>
        have hc : isCapital c := hcapitals c List.mem_cons_self
        by_cases hlower : d.isLower <;> simp [hc, hlower] <;> omega
  · -- two capitals follow
    have hd : d.isLower = false := by
      by_contra hlower
      exact not_isCapital_of_isLower (by simpa using hlower) (hcapitals d (by simp))
    have hne : n ≠ if rest = [] then capitals.length
        else if rest.head?.any Char.isLower then capitals.length - 1 else 0 := by
      split
      · omega
      · split <;> omega
    simp [hd, hne]

/-! ## The preferred match -/

/-- What only one member does is found wherever it stands. -/
theorem find?_of_unique {α : Type} {l : List α} {ok : α → Bool} {a : α} (hmem : a ∈ l)
    (hok : ok a) (h : ∀ b ∈ l, ok b → b = a) : l.find? ok = some a := by
  obtain ⟨b, hb⟩ := Option.isSome_iff_exists.mp (List.find?_isSome.mpr ⟨a, hmem, hok⟩)
  rw [hb, h b (List.mem_of_find?_eq_some hb) (List.find?_some hb)]

theorem acronymLength_le (capitals rest : List Char) :
    acronymLength capitals rest ≤ capitals.length := by
  rw [acronymLength]
  split
  · exact Nat.le_refl _
  · split <;> omega

theorem CapitalRun.find?_acronym (h : CapitalRun capitals rest) (hs : s.rest = capitals ++ rest) :
    (acronym.ends s).find? (fun t => (acronymBorder.matchAt? t).isSome) =
      if acronymLength capitals rest = 0 then none
      else some (s.advance (acronymLength capitals rest)) := by
  have hrun : (acronym.ends s).find? (fun t => (acronymBorder.matchAt? t).isSome) =
      (s.descent capitals.length).find? fun t => (acronymBorder.matchAt? t).isSome := by
    show ((seq (repeated (one _) 1 none true) empty).ends s).find? _ = _
    rw [find?_ends_seq_empty, find?_ends_plus, holds_capitalSpans, hs, h.takeWhile_eq]
  have hborder : ∀ t ∈ s.descent capitals.length, (acronymBorder.matchAt? t).isSome →
      0 < acronymLength capitals rest ∧ t = s.advance (acronymLength capitals rest) := by
    intro t ht hok
    obtain ⟨n, hpos, hn, rfl⟩ := Spot.mem_descent.mp ht
    obtain rfl := (h.border_iff hs hn hpos).mp hok
    exact ⟨hpos, rfl⟩
  rw [hrun]
  split
  next hzero =>
    refine List.find?_eq_none.mpr fun t ht hok => ?_
    exact absurd hzero (Nat.ne_of_gt (hborder t ht hok).1)
  next hne =>
    have hpos := Nat.pos_of_ne_zero hne
    have hle := acronymLength_le capitals rest
    exact find?_of_unique (Spot.mem_descent.mpr ⟨_, hpos, hle, rfl⟩)
      ((h.border_iff hs hle hpos).mpr rfl) fun t ht hok => (hborder t ht hok).2

/-- The length of the small letters and digits behind one capital at most. -/
def smallLength (capitals rest : List Char) : Nat :=
  if capitals.length ≤ 1 then (rest.takeWhile isSmall).length else 0

theorem matchAt?_smallRun (s : Spot) :
    (seq (repeated (anyIn smallSpans) 1 none true) empty).matchAt? s =
      if (s.rest.takeWhile isSmall).length = 0 then none
      else some (s.advance (s.rest.takeWhile isSmall).length) := by
  rw [matchAt?_seq_empty, anyIn, matchAt?_plus, holds_smallSpans]

theorem isSmall_eq_false_of_isCapital (hc : isCapital c) : isSmall c = false := by
  simpa using fun hsmall => not_isCapital_of_isSmall hsmall hc

theorem CapitalRun.matchAt?_smallWord (h : CapitalRun capitals rest)
    (hs : s.rest = capitals ++ rest) : smallWord.matchAt? s =
      if smallLength capitals rest = 0 then none
      else some (s.advance (capitals.length + smallLength capitals rest)) := by
  show (seq (repeated (one _) 0 (some 1) true) (seq _ empty)).matchAt? s = _
  rw [matchAt?_seq, ends_optional, holds_capitalSpans, funext matchAt?_smallRun]
  -- one capital may stand before the small letters; behind two there are none
  match capitals with
  | [] =>
      have hhead : ¬s.rest.head?.any isCapital := by
        cases rest with
        | nil => simp [hs]
        | cons c rest => simpa [hs] using h.rest c rfl
      rw [if_neg hhead, List.findSome?_singleton, hs]
      simp [smallLength]
  | [c] =>
      have hc := h.capitals c List.mem_cons_self
      have hhead : s.rest.head?.any isCapital := by simpa [hs] using hc
      have hskip : (s.rest.takeWhile isSmall).length = 0 := by
        simp [hs, isSmall_eq_false_of_isCapital hc]
      rw [if_pos hhead, List.findSome?_cons, List.findSome?_singleton, if_pos hskip]
      simp only [Spot.rest_advance, hs, List.singleton_append, List.drop_one, List.tail_cons,
        Spot.advance_advance, smallLength, List.length_singleton, Nat.le_refl, if_true]
      split <;> simp_all
  | c :: d :: capitals =>
      have hc := h.capitals c List.mem_cons_self
      have hd := h.capitals d (List.mem_cons_of_mem _ List.mem_cons_self)
      have hhead : s.rest.head?.any isCapital := by simpa [hs] using hc
      rw [if_pos hhead]
      simp [hs, isSmall_eq_false_of_isCapital hc, isSmall_eq_false_of_isCapital hd, smallLength]

theorem CapitalRun.wordLength_eq (h : CapitalRun capitals rest) : wordLength (capitals ++ rest) =
    if acronymLength capitals rest = 0 then
      if smallLength capitals rest = 0 then 0 else capitals.length + smallLength capitals rest
    else acronymLength capitals rest := by
  rw [wordLength, h.takeWhile_eq, List.drop_left]
  cases rest with
  | nil => simp [acronymLength, smallLength]
  | cons c rest =>
      by_cases htwo : 2 ≤ capitals.length
      · have hpos : capitals.length - 1 ≠ 0 := by omega
        have hmany : ¬capitals.length ≤ 1 := by omega
        by_cases hlower : c.isLower <;>
          simp [acronymLength, smallLength, htwo, hlower, hpos, hmany]
      · -- one capital at most makes no acronym before a small letter
        have hone : capitals.length - 1 = 0 := by omega
        have hfew : capitals.length ≤ 1 := by omega
        simp [acronymLength, smallLength, htwo, hone, hfew]

/-- What a search tries at a place is the word that starts there. -/
theorem wordAt?_eq (s : Spot) : wordAt? s =
    if wordLength s.rest = 0 then none else some (s.advance (wordLength s.rest)) := by
  obtain ⟨capitals, rest, hs, h⟩ := exists_capitalRun s.rest
  rw [wordAt?, h.find?_acronym hs, h.matchAt?_smallWord hs, hs, h.wordLength_eq]
  split
  next =>
    rw [Option.none_or]
    split
    next => rw [if_pos rfl]
    next => rw [if_neg (by omega)]
  next => rfl

end Lexicolor.Scope
