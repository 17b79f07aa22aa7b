import Mathlib
import Lexicolor.Pattern.Chain

/-!
# The words of a pattern

A pattern without assertions has a language: from a spot its matches go on by
the words of the language. Sequences, alternatives and repetitions multiply, add
and iterate languages.
-/

namespace Lexicolor

open Computability

/-- The words of one character with the property. -/
def anyOf (f : Char → Bool) : Language Char := {w | ∃ c, f c ∧ w = [c]}

theorem singleton_mul_singleton (v w : List Char) : ({v} * {w} : Language Char) = {v ++ w} := by
  ext x
  constructor
  · rintro ⟨_, rfl, _, rfl, rfl⟩
    rfl
  · rintro rfl
    exact ⟨v, rfl, w, rfl, rfl⟩

theorem mem_singleton_mul {v w : List Char} {L : Language Char} :
    w ∈ {v} * L ↔ ∃ u ∈ L, w = v ++ u := by
  constructor
  · rintro ⟨_, rfl, u, hu, rfl⟩
    exact ⟨u, hu, rfl⟩
  · rintro ⟨u, hu, rfl⟩
    exact ⟨v, rfl, u, hu, rfl⟩

theorem mem_anyOf_mul {f : Char → Bool} {w : List Char} {L : Language Char} :
    w ∈ anyOf f * L ↔ ∃ c u, f c ∧ u ∈ L ∧ w = c :: u := by
  constructor
  · rintro ⟨_, ⟨c, hc, rfl⟩, u, hu, rfl⟩
    exact ⟨c, u, hc, hu, rfl⟩
  · rintro ⟨c, u, hc, hu, rfl⟩
    exact ⟨[c], ⟨c, hc, rfl⟩, u, hu, rfl⟩

theorem mem_kstar_anyOf {f : Char → Bool} {w : List Char} : w ∈ (anyOf f)∗ ↔ ∀ c ∈ w, f c := by
  rw [Language.mem_kstar]
  constructor
  · rintro ⟨parts, rfl, hparts⟩ c hc
    obtain ⟨part, hpart, hc⟩ := List.mem_flatten.mp hc
    obtain ⟨x, hx, rfl⟩ := hparts part hpart
    rwa [List.mem_singleton.mp hc]
  · intro h
    refine ⟨w.map fun c => [c], (List.flatMap_singleton' w).symm, ?_⟩
    intro part hpart
    obtain ⟨c, hc, rfl⟩ := List.mem_map.mp hpart
    exact ⟨c, h c hc, rfl⟩

namespace Pattern

variable {p q : Pattern} {L M : Language Char} {s t u : Spot} {v w : List Char}

/-! ## Words in a text -/

/-- The text goes on with the word from one spot to the other. -/
structure Spot.Takes (s : Spot) (w : List Char) (t : Spot) : Prop where
  rest : s.rest = w ++ t.rest
  last : t.last = w.getLast?.or s.last

theorem takes_nil : s.Takes [] t ↔ t = s := by
  obtain ⟨last, rest⟩ := s
  obtain ⟨last', rest'⟩ := t
  constructor
  · rintro ⟨hrest, hlast⟩
    simp only [List.nil_append, List.getLast?_nil, Option.none_or] at hrest hlast
    rw [hrest, hlast]
  · rintro ⟨⟩
    exact ⟨rfl, rfl⟩

theorem takes_append : s.Takes (v ++ w) t ↔ ∃ u, s.Takes v u ∧ u.Takes w t := by
  constructor
  · rintro ⟨hrest, hlast⟩
    refine ⟨⟨v.getLast?.or s.last, w ++ t.rest⟩, ⟨by simpa using hrest, rfl⟩, rfl, ?_⟩
    rw [hlast, List.getLast?_append, Option.or_assoc]
  · rintro ⟨u, ⟨hrest, hlast⟩, hrest', hlast'⟩
    refine ⟨by rw [hrest, hrest', List.append_assoc], ?_⟩
    rw [hlast', hlast, List.getLast?_append, Option.or_assoc]

/-- The text goes on with some word of the language from one spot to the other. -/
def Spot.Through (s : Spot) (L : Language Char) (t : Spot) : Prop := ∃ w ∈ L, s.Takes w t

theorem through_one : s.Through 1 t ↔ t = s := by
  constructor
  · rintro ⟨w, rfl, h⟩
    exact takes_nil.mp h
  · intro h
    exact ⟨[], rfl, takes_nil.mpr h⟩

theorem through_mul : s.Through (L * M) t ↔ ∃ u, s.Through L u ∧ u.Through M t := by
  constructor
  · rintro ⟨_, ⟨v, hv, w, hw, rfl⟩, h⟩
    obtain ⟨u, hsu, hut⟩ := takes_append.mp h
    exact ⟨u, ⟨v, hv, hsu⟩, w, hw, hut⟩
  · rintro ⟨u, ⟨v, hv, hsu⟩, w, hw, hut⟩
    exact ⟨v ++ w, Language.append_mem_mul hv hw, takes_append.mpr ⟨u, hsu, hut⟩⟩

theorem through_add : s.Through (L + M) t ↔ s.Through L t ∨ s.Through M t := by
  constructor
  · rintro ⟨w, hw | hw, h⟩
    · exact .inl ⟨w, hw, h⟩
    · exact .inr ⟨w, hw, h⟩
  · rintro (⟨w, hw, h⟩ | ⟨w, hw, h⟩)
    · exact ⟨w, .inl hw, h⟩
    · exact ⟨w, .inr hw, h⟩

theorem through_pow {n : Nat} : s.Through (L ^ n) t ↔ Chain (fun s t => s.Through L t) n s t := by
  induction n generalizing s with
  | zero => rw [pow_zero, through_one, Chain]
  | succ n ih =>
      rw [pow_succ', through_mul]
      exact exists_congr fun u => and_congr_right fun _ => ih

theorem through_kstar : s.Through L∗ t ↔ Chained (fun s t => s.Through L t) s t := by
  have hstar : s.Through L∗ t ↔ ∃ n, s.Through (L ^ n) t := by
    simp only [Spot.Through, Language.kstar_eq_iSup_pow, Language.mem_iSup]
    constructor
    · rintro ⟨w, ⟨n, hw⟩, h⟩
      exact ⟨n, w, hw, h⟩
    · rintro ⟨n, w, hw, h⟩
      exact ⟨w, ⟨n, hw⟩, h⟩
  rw [hstar]
  exact exists_congr fun n => through_pow

/-! ## Patterns with a language -/

/-- The matches of the pattern go on by the words of the language. -/
def Denotes (p : Pattern) (L : Language Char) : Prop := ∀ s t, t ∈ p.ends s ↔ s.Through L t

theorem denotes_empty : empty.Denotes 1 := by
  intro s t
  rw [ends, List.mem_singleton, through_one]

theorem denotes_one {c : CharClass} {f : Char → Bool} (h : ∀ x, c.holds x = f x) :
    (one c).Denotes (anyOf f) := by
  rintro ⟨last, rest⟩ t
  cases rest with
  | nil =>
      refine iff_of_false (by simp [ends]) ?_
      rintro ⟨_, ⟨x, _, rfl⟩, hrest, _⟩
      simp at hrest
  | cons x rest =>
      show t ∈ (if c.holds x then [⟨some x, rest⟩] else []) ↔ _
      rw [h]
      constructor
      · intro ht
        split at ht
        next hx =>
          rw [List.mem_singleton.mp ht]
          exact ⟨[x], ⟨x, hx, rfl⟩, rfl, rfl⟩
        next => cases ht
      · rintro ⟨_, ⟨y, hy, rfl⟩, hrest, hlast⟩
        obtain ⟨rfl, rfl⟩ := List.cons.inj hrest
        rw [if_pos hy, List.mem_singleton]
        obtain ⟨last', rest'⟩ := t
        cases hlast
        rfl

theorem Denotes.seq (hp : p.Denotes L) (hq : q.Denotes M) : (seq p q).Denotes (L * M) := by
  intro s t
  rw [ends, List.mem_eraseDups, List.mem_flatMap, through_mul]
  exact exists_congr fun u => and_congr (hp s u) (hq u t)

theorem Denotes.alt (hp : p.Denotes L) (hq : q.Denotes M) : (alt p q).Denotes (L + M) := by
  intro s t
  rw [ends, List.mem_eraseDups, List.mem_append, through_add, hp, hq]

theorem Denotes.star (hp : p.Denotes L) (greedy : Bool) :
    (repeated p 0 none greedy).Denotes L∗ := by
  intro s t
  have hstep : (fun s t => t ∈ p.ends s) = fun s t => s.Through L t := by
    funext s t
    exact propext (hp s t)
  rw [mem_ends_repeated, hstep, through_kstar]
  simp [Chain]

theorem Denotes.plus (hp : p.Denotes L) (greedy : Bool) :
    (repeated p 1 none greedy).Denotes (L * L∗) := by
  intro s t
  have hstep : (fun s t => t ∈ p.ends s) = fun s t => s.Through L t := by
    funext s t
    exact propext (hp s t)
  rw [mem_ends_repeated, hstep, through_mul]
  simp [Chain, through_kstar]

theorem Denotes.optional (hp : p.Denotes L) (greedy : Bool) :
    (repeated p 0 (some 1) greedy).Denotes (1 + L) := by
  intro s t
  rw [mem_ends_repeated, through_add, through_one, ← hp]
  constructor
  · rintro ⟨u, rfl, k, hk, h⟩
    cases k with
    | zero => exact .inl h
    | succ k =>
        obtain rfl : k = 0 := by omega
        obtain ⟨v, hv, rfl⟩ := h
        exact .inr hv
  · rintro (rfl | h)
    · exact ⟨t, rfl, 0, Nat.zero_le 1, rfl⟩
    · exact ⟨s, rfl, 1, Nat.le_refl 1, t, h, rfl⟩

theorem mem_ends_seqAll_append {ps qs : List Pattern} :
    t ∈ (seqAll (ps ++ qs)).ends s ↔ ∃ u ∈ (seqAll ps).ends s, t ∈ (seqAll qs).ends u := by
  induction ps generalizing s with
  | nil => simp [seqAll, ends]
  | cons p ps ih =>
      show t ∈ (seq p (seqAll (ps ++ qs))).ends s ↔ ∃ u ∈ (seq p (seqAll ps)).ends s, _
      simp only [ends, List.mem_eraseDups, List.mem_flatMap, ih]
      constructor
      · rintro ⟨v, hv, u, hu, ht⟩
        exact ⟨u, ⟨v, hv, hu⟩, ht⟩
      · rintro ⟨u, ⟨v, hv, hu⟩, ht⟩
        exact ⟨v, hv, u, hu, ht⟩

theorem denotes_seqAll_singleton (hp : p.Denotes L) : (seqAll [p]).Denotes L := by
  have h := hp.seq denotes_empty
  rwa [mul_one] at h

theorem mem_sum {α : Type} {words : α → Language Char} {items : List α} :
    w ∈ (items.map words).sum ↔ ∃ item ∈ items, w ∈ words item := by
  induction items with
  | nil => simp
  | cons item rest ih => rw [List.map_cons, List.sum_cons, Language.mem_add, ih]; simp

theorem through_sum {α : Type} {words : α → Language Char} {items : List α} :
    s.Through (items.map words).sum t ↔ ∃ item ∈ items, s.Through (words item) t := by
  constructor
  · rintro ⟨w, hw, h⟩
    obtain ⟨item, hitem, hw⟩ := mem_sum.mp hw
    exact ⟨item, hitem, w, hw, h⟩
  · rintro ⟨item, hitem, w, hw, h⟩
    exact ⟨w, mem_sum.mpr ⟨item, hitem, hw⟩, h⟩

/-! ## Patterns with assertions -/

/-- The matches of the pattern lead from spot to spot as the relation says. -/
def Follows (p : Pattern) (R : Spot → Spot → Prop) : Prop := ∀ s t, t ∈ p.ends s ↔ R s t

variable {R R' : Spot → Spot → Prop}

theorem mem_ends_place {a : Assertion} : t ∈ (seqAll [place a]).ends s ↔ a.holds s ∧ t = s := by
  by_cases h : a.holds s <;> simp [seqAll, ends, h]

theorem Follows.alt (hp : p.Follows R) (hq : q.Follows R') :
    (alt p q).Follows fun s t => R s t ∨ R' s t := by
  intro s t
  rw [ends, List.mem_eraseDups, List.mem_append, hp, hq]

theorem Follows.seqAll_append {ps qs : List Pattern} (hp : (seqAll ps).Follows R)
    (hq : (seqAll qs).Follows R') : (seqAll (ps ++ qs)).Follows (Relation.Comp R R') := by
  intro s t
  rw [mem_ends_seqAll_append]
  exact exists_congr fun u => and_congr (hp s u) (hq u t)

theorem Follows.seqAll_singleton (hp : p.Follows R) : (seqAll [p]).Follows R := by
  intro s t
  rw [← hp s t]
  simp [seqAll, ends]

end Pattern

end Lexicolor
