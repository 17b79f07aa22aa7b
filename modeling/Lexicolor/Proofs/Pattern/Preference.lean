import Mathlib
import Lexicolor.Pattern.Basic
import Lexicolor.Proofs.Grouping

/-!
# The preferred match

Of the matches at one place only the preferred one counts. That of a sequence or
of alternatives comes from those of the parts, and a greedy repetition of a class
takes the whole run, or as much of it as lets the rest of the pattern match. A
search finds the leftmost match and then goes on behind it.
-/

namespace Lexicolor.Pattern

variable {p q : Pattern} {c : CharClass} {s : Spot} {text : List Char} {i j m n start : Nat}
variable {a : Assertion} {ok : Spot → Bool} {ps : List Pattern}

/-! ## Going on in a text -/

namespace Spot

/-- The place `n` characters further on. -/
def advance (s : Spot) (n : Nat) : Spot := ⟨(s.rest.take n).getLast?.or s.last, s.rest.drop n⟩

@[simp] theorem rest_advance (s : Spot) (n : Nat) : (s.advance n).rest = s.rest.drop n := rfl

@[simp] theorem advance_zero (s : Spot) : s.advance 0 = s := by
  simp [advance]

theorem advance_advance (s : Spot) (m n : Nat) : (s.advance m).advance n = s.advance (m + n) := by
  simp only [advance, List.drop_drop, List.take_add, List.getLast?_append, Option.or_assoc]

theorem advance_succ (last : Option Char) (x : Char) (rest : List Char) (n : Nat) :
    (⟨last, x :: rest⟩ : Spot).advance (n + 1) = (⟨some x, rest⟩ : Spot).advance n := by
  rw [Nat.add_comm, ← advance_advance]
  rfl

/-- The place after the first `n` characters of a text. -/
def within (text : List Char) (n : Nat) : Spot := (Spot.start text).advance n

@[simp] theorem rest_within (text : List Char) (n : Nat) : (within text n).rest = text.drop n :=
  rfl

theorem advance_within (text : List Char) (m n : Nat) :
    (within text m).advance n = within text (m + n) := advance_advance ..

theorem within_inj (hi : i ≤ text.length) (hj : j ≤ text.length)
    (h : within text i = within text j) : i = j := by
  have hlength := congrArg (fun s : Spot => s.rest.length) h
  simp only [rest_within, List.length_drop] at hlength
  omega

end Spot

/-! ## The first end that will do -/

theorem head?_eq_find? {α : Type} (items : List α) : items.head? = items.find? fun _ => true := by
  cases items <;> rfl

theorem matchAt?_eq_find? (p : Pattern) (s : Spot) :
    p.matchAt? s = (p.ends s).find? fun _ => true := head?_eq_find? _

theorem find?_ends_alt : ((alt p q).ends s).find? ok =
    ((p.ends s).find? ok).or ((q.ends s).find? ok) := by
  rw [ends, find?_eraseDups, List.find?_append]

/-- The first of the alternatives with an end that will do gives the end. -/
theorem find?_ends_altAll (hne : ps ≠ []) : ((altAll ps).ends s).find? ok =
    ps.findSome? fun p => (p.ends s).find? ok := by
  induction ps with
  | nil => exact absurd rfl hne
  | cons p ps ih =>
      cases ps with
      | nil => rw [altAll, List.findSome?_singleton]
      | cons q ps =>
          show ((alt p (altAll (q :: ps))).ends s).find? ok = _
          rw [find?_ends_alt, ih (List.cons_ne_nil q ps)]
          cases h : (p.ends s).find? ok <;> simp [h]

/-- The end of a sequence comes from the first end of the first part from which the second part has
one that will do. -/
theorem find?_ends_seq : ((seq p q).ends s).find? ok =
    (p.ends s).findSome? fun t => (q.ends t).find? ok := by
  rw [ends, find?_eraseDups, List.find?_flatMap]

theorem find?_ends_seq_empty : ((seq p empty).ends s).find? ok = (p.ends s).find? ok := by
  have hempty : (fun t => (empty.ends t).find? ok) = Option.guard fun t => ok t := by
    funext t
    cases h : ok t <;> simp [ends, Option.guard, h]
  rw [find?_ends_seq, hempty, List.find?_eq_findSome?_guard]

theorem ends_one : (one c).ends s = if s.rest.head?.any c.holds then [s.advance 1] else [] := by
  obtain ⟨last, rest⟩ := s
  cases rest <;> rfl

/-! ## Preference -/

theorem matchAt?_alt : (alt p q).matchAt? s = (p.matchAt? s).or (q.matchAt? s) := by
  simp only [matchAt?_eq_find?, find?_ends_alt]

theorem matchAt?_altAll (hne : ps ≠ []) :
    (altAll ps).matchAt? s = ps.findSome? fun p => p.matchAt? s := by
  simp only [matchAt?_eq_find?, find?_ends_altAll hne]

/-- The preferred match of a sequence goes on from the first end of the first part from which
there is a match. -/
theorem matchAt?_seq : (seq p q).matchAt? s = (p.ends s).findSome? q.matchAt? := by
  rw [matchAt?_eq_find?, find?_ends_seq, funext (matchAt?_eq_find? q)]

theorem matchAt?_seq_empty : (seq p empty).matchAt? s = p.matchAt? s := by
  rw [matchAt?_eq_find?, find?_ends_seq_empty, matchAt?_eq_find?]

theorem matchAt?_seq_one :
    (seq (one c) q).matchAt? s =
      if s.rest.head?.any c.holds then q.matchAt? (s.advance 1) else none := by
  rw [matchAt?_seq, ends_one]
  split
  · rw [List.findSome?_singleton]
  · rfl

theorem matchAt?_seq_char {x : Char} : (seq (char x) q).matchAt? s =
    if s.rest.head? = some x then q.matchAt? (s.advance 1) else none := by
  rw [char, matchAt?_seq_one]
  congr 1
  cases s.rest <;> simp

theorem matchAt?_place_seq :
    (seq (place a) q).matchAt? s = if a.holds s then q.matchAt? s else none := by
  rw [matchAt?_seq, ends]
  split
  · rw [List.findSome?_singleton]
  · rfl

/-- Before an assertion the first end counts at which it holds. -/
theorem matchAt?_seq_place :
    (seq p (seq (place a) empty)).matchAt? s = (p.ends s).find? a.holds := by
  have hplace : (seq (place a) empty).matchAt? = Option.guard fun t => a.holds t := by
    funext t
    rw [matchAt?_place_seq]
    simp [Option.guard, matchAt?, ends]
  rw [matchAt?_seq, hplace, List.find?_eq_findSome?_guard]

/-- A word has one end, where the text goes on with it. -/
theorem ends_word (word : List Char) : (seqAll (word.map char)).ends s =
    if word <+: s.rest then [s.advance word.length] else [] := by
  induction word generalizing s with
  | nil => simp [seqAll, ends]
  | cons c word ih =>
      show (seq (char c) (seqAll (word.map char))).ends s = _
      obtain ⟨last, rest⟩ := s
      rw [ends, char, ends_one]
      cases rest with
      | nil => simp
      | cons x rest =>
          by_cases hx : x = c
          · subst hx
            have hstep : (⟨last, x :: rest⟩ : Spot).advance 1 = ⟨some x, rest⟩ := rfl
            simp only [List.head?_cons, Option.any_some, CharClass.holds_single, decide_true,
              if_true, List.flatMap_singleton, hstep, ih, List.cons_prefix_cons, true_and,
              List.length_cons, Spot.advance_succ]
            exact eraseDups_of_nodup (by split <;> simp)
          · simp [hx, Ne.symm hx]

/-! ## Greedy repetitions -/

namespace Spot

/-- The places after the first characters, from `n` of them down to one. -/
def descent (s : Spot) (n : Nat) : List Spot :=
  (List.range n).reverse.map fun k => s.advance (k + 1)

theorem descent_succ (s : Spot) (n : Nat) :
    s.descent (n + 1) = (s.advance 1).descent n ++ [s.advance 1] := by
  have hstep : (fun k => s.advance (k + 1)) ∘ Nat.succ = fun k => (s.advance 1).advance (k + 1) := by
    funext k
    rw [advance_advance, Nat.add_comm]
    rfl
  rw [descent, List.range_succ_eq_map, List.reverse_cons, List.map_append, ← List.map_reverse,
    List.map_map, hstep, List.map_singleton, descent]

theorem mem_descent {t : Spot} : t ∈ s.descent n ↔ ∃ k, 0 < k ∧ k ≤ n ∧ t = s.advance k := by
  simp only [descent, List.mem_map, List.mem_reverse, List.mem_range]
  constructor
  · rintro ⟨k, hk, rfl⟩
    exact ⟨k + 1, Nat.succ_pos k, hk, rfl⟩
  · rintro ⟨k, hpos, hk, rfl⟩
    exact ⟨k - 1, by omega, by rw [Nat.sub_add_cancel hpos]⟩

theorem head?_descent (s : Spot) (n : Nat) :
    (s.descent n).head? = if n = 0 then none else some (s.advance n) := by
  cases n with
  | zero => rfl
  | succ n => simp [descent, List.range_succ]

end Spot

theorem find?_upTo_one (h : s.rest.length ≤ n) : (upTo (one c).ends true n s).find? ok =
    (s.descent (s.rest.takeWhile c.holds).length ++ [s]).find? ok := by
  -- the bound on the steps never stops the run, as each step takes one of the characters left
  induction n generalizing s with
  | zero =>
      have hrest : s.rest = [] := List.eq_nil_of_length_eq_zero (Nat.le_zero.mp h)
      simp [upTo, hrest, Spot.descent]
  | succ n ih =>
      obtain ⟨last, rest⟩ := s
      rw [upTo, if_pos rfl, find?_eraseDups, ends_one]
      cases rest with
      | nil => simp [Spot.descent]
      | cons x rest =>
          by_cases hx : c.holds x
          · have hstep : (⟨last, x :: rest⟩ : Spot).advance 1 = ⟨some x, rest⟩ := rfl
            have hmore : (upTo (one c).ends true n ⟨some x, rest⟩).find? ok = _ :=
              ih (Nat.le_of_succ_le_succ h)
            simp only [List.head?_cons, Option.any_some, hx, if_true, hstep, List.flatMap_singleton,
              List.length_cons, Nat.lt_succ_self, List.find?_append, hmore,
              List.takeWhile_cons_of_pos, Spot.descent_succ]
          · simp [hx, Spot.descent]

theorem exactly_zero (step : Spot → List Spot) (spots : List Spot) :
    exactly step 0 spots = spots := by
  cases spots <;> rfl

/-- A greedy repetition of a class goes back over the run of its characters, down to none. -/
theorem find?_ends_star : ((repeated (one c) 0 none true).ends s).find? ok =
    (s.descent (s.rest.takeWhile c.holds).length ++ [s]).find? ok := by
  have hends : (repeated (one c) 0 none true).ends s =
      (upTo (one c).ends true s.rest.length s).eraseDups := by
    rw [ends, exactly_zero, List.flatMap_singleton]
    rfl
  rw [hends, find?_eraseDups, find?_upTo_one (Nat.le_refl _)]

/-- A greedy repetition that is not empty goes back to the first character of the run. -/
theorem find?_ends_plus : ((repeated (one c) 1 none true).ends s).find? ok =
    (s.descent (s.rest.takeWhile c.holds).length).find? ok := by
  have hends : (repeated (one c) 1 none true).ends s =
      (((one c).ends s).eraseDups.flatMap fun t =>
        upTo (one c).ends true t.rest.length t).eraseDups := by
    show ((exactly (one c).ends 0 ([s].flatMap (one c).ends).eraseDups).flatMap _).eraseDups = _
    rw [exactly_zero, List.flatMap_singleton]
    rfl
  obtain ⟨last, rest⟩ := s
  rw [hends, find?_eraseDups, ends_one]
  cases rest with
  | nil => simp [Spot.descent]
  | cons x rest =>
      by_cases hx : c.holds x
      · have hstep : (⟨last, x :: rest⟩ : Spot).advance 1 = ⟨some x, rest⟩ := rfl
        have hone : [(⟨some x, rest⟩ : Spot)].eraseDups = [⟨some x, rest⟩] :=
          eraseDups_of_nodup (List.nodup_singleton _)
        have hmore : (upTo (one c).ends true rest.length ⟨some x, rest⟩).find? ok = _ :=
          find?_upTo_one (Nat.le_refl rest.length)
        simp only [List.head?_cons, Option.any_some, hx, if_true, hstep, hone,
          List.flatMap_singleton, hmore, List.takeWhile_cons_of_pos, List.length_cons,
          Spot.descent_succ]
      · simp [hx, Spot.descent]

/-- A greedy repetition of a class takes the whole run of its characters. -/
theorem matchAt?_run : (repeated (one c) 0 none true).matchAt? s =
    some (s.advance (s.rest.takeWhile c.holds).length) := by
  rw [matchAt?_eq_find?, find?_ends_star, ← head?_eq_find?, List.head?_append, Spot.head?_descent]
  split
  next hzero => rw [hzero, Spot.advance_zero]; rfl
  next => rfl

theorem matchAt?_plus : (repeated (one c) 1 none true).matchAt? s =
    if (s.rest.takeWhile c.holds).length = 0 then none
    else some (s.advance (s.rest.takeWhile c.holds).length) := by
  rw [matchAt?_eq_find?, find?_ends_plus, ← head?_eq_find?, Spot.head?_descent]

/-- A greedy option is taken first, and then left out. -/
theorem ends_optional : (repeated (one c) 0 (some 1) true).ends s =
    if s.rest.head?.any c.holds then [s.advance 1, s] else [s] := by
  have hends : (repeated (one c) 0 (some 1) true).ends s =
      (upTo (one c).ends true 1 s).eraseDups := by
    rw [ends, exactly_zero, List.flatMap_singleton]
    rfl
  have hone : [s].eraseDups = [s] := eraseDups_of_nodup (List.nodup_singleton s)
  rw [hends, upTo, if_pos rfl, ends_one]
  split
  next h =>
    have hlt : (s.advance 1).rest.length < s.rest.length := by
      have hne : s.rest ≠ [] := fun hnil => by simp [hnil] at h
      have hpos := List.length_pos_of_ne_nil hne
      rw [Spot.rest_advance, List.length_drop]
      omega
    have hnodup : [s.advance 1, s].Nodup :=
      List.nodup_cons.mpr ⟨fun hmem => by simp [List.mem_singleton.mp hmem] at hlt,
        List.nodup_singleton s⟩
    simp only [List.flatMap_singleton, if_pos hlt, upTo, List.singleton_append,
      eraseDups_of_nodup hnodup]
  next => rw [List.flatMap_nil, List.nil_append, hone, hone]

/-! ## Searching -/

/-- The preferred match at column `i` of the text is `n` characters long. -/
def MatchesAt (p : Pattern) (text : List Char) (i n : Nat) : Prop :=
  i + n ≤ text.length ∧ p.matchAt? (.within text i) = some (.within text (i + n))

/-- The leftmost match from a column on. -/
structure Leftmost (p : Pattern) (text : List Char) (start i n : Nat) : Prop where
  start_le : start ≤ i
  matchesAt : p.MatchesAt text i n
  earlier : ∀ j, start ≤ j → j < i → p.matchAt? (.within text j) = none

/-- What a search from a column on finds: the leftmost match, and what it finds behind that. It is
for patterns that match no empty text. -/
inductive Found (p : Pattern) (text : List Char) : (start i n : Nat) → Prop
  | leftmost {start i n : Nat} : p.Leftmost text start i n → Found p text start i n
  | behind {start i n j m : Nat} : p.Leftmost text start i n → Found p text (i + n) j m →
      Found p text start j m

theorem MatchesAt.length_unique (h : p.MatchesAt text i n) (h' : p.MatchesAt text i m) :
    n = m := by
  have heq := Spot.within_inj h.1 h'.1 (Option.some.inj (h.2.symm.trans h'.2))
  exact Nat.add_left_cancel heq

theorem Leftmost.unique (h : p.Leftmost text start i n) (h' : p.Leftmost text start j m) :
    i = j ∧ n = m := by
  have hle : ¬i < j := fun hlt => by
    have hnone := h'.earlier i h.start_le hlt
    rw [h.matchesAt.2] at hnone
    cases hnone
  have hge : ¬j < i := fun hlt => by
    have hnone := h.earlier j h'.start_le hlt
    rw [h'.matchesAt.2] at hnone
    cases hnone
  obtain rfl : i = j := by omega
  exact ⟨rfl, h.matchesAt.length_unique h'.matchesAt⟩

/-- After its leftmost match a search finds what it finds behind that. -/
theorem Leftmost.found_iff (h : p.Leftmost text start i n) :
    p.Found text start j m ↔ (j = i ∧ m = n) ∨ p.Found text (i + n) j m := by
  constructor
  · intro hfound
    cases hfound with
    | leftmost h' => exact .inl (h'.unique h)
    | behind h' hbehind =>
        obtain ⟨rfl, rfl⟩ := h'.unique h
        exact .inr hbehind
  · rintro (⟨rfl, rfl⟩ | hbehind)
    · exact .leftmost h
    · exact .behind h hbehind

theorem leftmost_succ_iff (h : p.matchAt? (.within text start) = none) :
    p.Leftmost text start i n ↔ p.Leftmost text (start + 1) i n := by
  constructor
  · intro hleft
    have hne : start ≠ i := by
      rintro rfl
      rw [hleft.matchesAt.2] at h
      cases h
    have := hleft.start_le
    exact ⟨by omega, hleft.matchesAt, fun j hj => hleft.earlier j (by omega)⟩
  · intro hleft
    refine ⟨Nat.le_of_succ_le hleft.start_le, hleft.matchesAt, fun j hj hlt => ?_⟩
    rcases Nat.eq_or_lt_of_le hj with rfl | hj
    · exact h
    · exact hleft.earlier j hj hlt

/-- A search passes over a column without a match. -/
theorem found_succ_iff (h : p.matchAt? (.within text start) = none) :
    p.Found text start i n ↔ p.Found text (start + 1) i n := by
  constructor
  · intro hfound
    cases hfound with
    | leftmost hleft => exact .leftmost ((leftmost_succ_iff h).mp hleft)
    | behind hleft hbehind => exact .behind ((leftmost_succ_iff h).mp hleft) hbehind
  · intro hfound
    cases hfound with
    | leftmost hleft => exact .leftmost ((leftmost_succ_iff h).mpr hleft)
    | behind hleft hbehind => exact .behind ((leftmost_succ_iff h).mpr hleft) hbehind

theorem Found.matchesAt (h : p.Found text start i n) : p.MatchesAt text i n := by
  induction h with
  | leftmost h => exact h.matchesAt
  | behind _ _ ih => exact ih

end Lexicolor.Pattern
