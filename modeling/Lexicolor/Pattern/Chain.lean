import Lexicolor.Pattern.Basic

/-!
# Repetitions as chains of steps

A step from spot to spot may stay in place but never goes back. So the ends of
a repetition are those of the chains of steps, and beyond the number of
characters left the length of a chain makes no difference.
-/

namespace Lexicolor.Pattern

variable {R : Spot → Spot → Prop} {step : Spot → List Spot} {s t u : Spot} {m n : Nat}

/-- The step stays in place or advances. -/
def Spot.Onto (s t : Spot) : Prop := t = s ∨ t.rest.length < s.rest.length

theorem Spot.Onto.trans (h : s.Onto t) (h' : t.Onto u) : s.Onto u := by
  rcases h with rfl | h
  · exact h'
  · rcases h' with rfl | h'
    · exact .inr h
    · exact .inr (Nat.lt_trans h' h)

theorem Spot.Onto.antisymm (h : s.Onto t) (h' : t.Onto s) : t = s := by
  rcases h with h | h
  · exact h
  · rcases h' with h' | h'
    · exact h'.symm
    · omega

theorem Spot.Onto.length_lt (h : s.Onto t) (hs : s.rest.length < n) : t.rest.length < n := by
  rcases h with rfl | h
  · exact hs
  · exact Nat.lt_trans h hs

/-- `n` steps lead from `s` to `t`. -/
def Chain (R : Spot → Spot → Prop) : Nat → Spot → Spot → Prop
  | 0, s, t => t = s
  | n + 1, s, t => ∃ u, R s u ∧ Chain R n u t

/-- Some number of steps leads from `s` to `t`. -/
def Chained (R : Spot → Spot → Prop) (s t : Spot) : Prop := ∃ n, Chain R n s t

theorem Chain.onto (hR : ∀ s t, R s t → s.Onto t) (h : Chain R n s t) : s.Onto t := by
  induction n generalizing s with
  | zero => exact .inl h
  | succ n ih =>
      obtain ⟨u, hu, h⟩ := h
      exact (hR s u hu).trans (ih h)

theorem Chained.onto (hR : ∀ s t, R s t → s.Onto t) (h : Chained R s t) : s.Onto t :=
  let ⟨_, h⟩ := h
  h.onto hR

theorem Chained.refl : Chained R s s := ⟨0, rfl⟩

theorem Chained.head (h : R s u) (h' : Chained R u t) : Chained R s t :=
  let ⟨n, h'⟩ := h'
  ⟨n + 1, u, h, h'⟩

/-- Steps that agree from a spot on have the same chains from there. -/
theorem chain_congr {R' : Spot → Spot → Prop} (hR : ∀ s t, R s t → s.Onto t)
    (h : ∀ u v, s.Onto u → (R u v ↔ R' u v)) : Chain R n s t ↔ Chain R' n s t := by
  induction n generalizing s with
  | zero => rfl
  | succ n ih =>
      refine exists_congr fun u => ?_
      rw [← h s u (.inl rfl)]
      exact and_congr_right fun hu => ih fun v w hv => h v w ((hR s u hu).trans hv)

/-- A chain that advances has a first step that advances. -/
theorem Chained.exists_advance (hR : ∀ s t, R s t → s.Onto t) (h : Chained R s t)
    (ht : t.rest.length < s.rest.length) :
    ∃ u, u.rest.length < s.rest.length ∧ R s u ∧ Chained R u t := by
  obtain ⟨n, h⟩ := h
  induction n with
  | zero =>
      cases h
      omega
  | succ n ih =>
      obtain ⟨u, hu, h⟩ := h
      rcases hR s u hu with rfl | hlt
      · exact ih h
      · exact ⟨u, hlt, hu, n, h⟩

/-- A chain of more steps than characters are left may have one step more or less. -/
theorem chain_succ_iff (hR : ∀ s t, R s t → s.Onto t) (h : s.rest.length < n) :
    Chain R (n + 1) s t ↔ Chain R n s t := by
  induction n generalizing s with
  | zero => omega
  | succ n ih =>
      constructor
      · rintro ⟨u, hu, hut⟩
        rcases hR s u hu with rfl | hlt
        · exact hut
        · exact ⟨u, hu, (ih (by omega)).mp hut⟩
      · rintro ⟨u, hu, hut⟩
        rcases hR s u hu with rfl | hlt
        · exact ⟨u, hu, u, hu, hut⟩
        · exact ⟨u, hu, (ih (by omega)).mpr hut⟩

theorem chain_iff_of_le (hR : ∀ s t, R s t → s.Onto t) (h : s.rest.length < m) (hmn : m ≤ n) :
    Chain R n s t ↔ Chain R m s t := by
  induction hmn with
  | refl => rfl
  | step hmn ih => rw [chain_succ_iff hR (Nat.lt_of_lt_of_le h hmn), ih]

theorem chain_min_iff (hR : ∀ s t, R s t → s.Onto t) (h : s.rest.length < m) :
    Chain R (min n m) s t ↔ Chain R n s t := by
  rcases Nat.le_total n m with hle | hle
  · rw [Nat.min_eq_left hle]
  · rw [Nat.min_eq_right hle, chain_iff_of_le hR h hle]

theorem mem_exactly {spots : List Spot} :
    t ∈ exactly step n spots ↔ ∃ s ∈ spots, Chain (fun s t => t ∈ step s) n s t := by
  induction n generalizing spots with
  | zero => cases spots <;> simp [exactly, Chain]
  | succ n ih =>
      cases spots with
      | nil => simp [exactly]
      | cons spot spots =>
          rw [exactly, ih]
          constructor
          · rintro ⟨u, hu, h⟩
            obtain ⟨s, hs, hsu⟩ := List.mem_flatMap.mp (List.mem_eraseDups.mp hu)
            exact ⟨s, hs, u, hsu, h⟩
          · rintro ⟨s, hs, u, hsu, h⟩
            exact ⟨u, List.mem_eraseDups.mpr (List.mem_flatMap.mpr ⟨s, hs, hsu⟩), h⟩

theorem mem_upTo_succ {greedy : Bool} : t ∈ upTo step greedy (n + 1) s ↔
    t = s ∨ ∃ u ∈ step s,
      if u.rest.length < s.rest.length then t ∈ upTo step greedy n u else t = u := by
  rw [upTo, List.mem_eraseDups]
  have h : (t ∈ (step s).flatMap fun u =>
      if u.rest.length < s.rest.length then upTo step greedy n u else [u]) ↔
      ∃ u ∈ step s, if u.rest.length < s.rest.length then t ∈ upTo step greedy n u else t = u := by
    rw [List.mem_flatMap]
    refine exists_congr fun u => and_congr_right fun _ => ?_
    split <;> simp
  cases greedy
  · simp [h]
  · simp [h, or_comm]

theorem mem_upTo {greedy : Bool} (hstep : ∀ s, ∀ t ∈ step s, s.Onto t) :
    t ∈ upTo step greedy n s ↔ ∃ k ≤ n, Chain (fun s t => t ∈ step s) k s t := by
  induction n generalizing s with
  | zero => simp [upTo, Chain]
  | succ n ih =>
      rw [mem_upTo_succ]
      constructor
      · rintro (rfl | ⟨u, hu, h⟩)
        · exact ⟨0, by omega, rfl⟩
        · split at h
          · obtain ⟨k, hk, h⟩ := ih.mp h
            exact ⟨k + 1, by omega, u, hu, h⟩
          · exact ⟨1, by omega, u, hu, h⟩
      · rintro ⟨k, hk, h⟩
        induction k with
        | zero => exact .inl h
        | succ k ihk =>
            obtain ⟨u, hu, h⟩ := h
            rcases hstep s u hu with rfl | hlt
            · exact ihk (by omega) h
            · refine .inr ⟨u, hu, ?_⟩
              rw [if_pos hlt]
              exact ih.mpr ⟨k, by omega, h⟩

/-- As many steps as characters are left give all ends of chains. -/
theorem mem_upTo_length {greedy : Bool} (hstep : ∀ s, ∀ t ∈ step s, s.Onto t) :
    t ∈ upTo step greedy s.rest.length s ↔ Chained (fun s t => t ∈ step s) s t := by
  rw [mem_upTo hstep]
  constructor
  · rintro ⟨k, _, h⟩
    exact ⟨k, h⟩
  · intro h
    generalize hn : s.rest.length = n
    replace hn : s.rest.length ≤ n := by omega
    induction n generalizing s with
    | zero =>
        rcases h.onto hstep with rfl | hlt
        · exact ⟨0, by omega, rfl⟩
        · omega
    | succ n ih =>
        rcases h.onto hstep with rfl | hlt
        · exact ⟨0, by omega, rfl⟩
        · obtain ⟨u, hlt, hu, h⟩ := h.exists_advance hstep hlt
          obtain ⟨k, hk, h⟩ := ih h (by omega)
          exact ⟨k + 1, by omega, u, hu, h⟩

/-- A match never ends before it starts. -/
theorem onto_of_mem_ends {p : Pattern} (h : t ∈ p.ends s) : s.Onto t := by
  induction p generalizing s t with
  | empty => exact .inl (by simpa [ends] using h)
  | one c =>
      obtain ⟨last, _ | ⟨x, rest⟩⟩ := s
      · simp [ends] at h
      · by_cases hx : c.holds x <;> simp [ends, hx] at h
        exact .inr (by simp [h])
  | place a =>
      by_cases ha : a.holds s <;> simp [ends, ha] at h
      exact .inl h
  | seq a b iha ihb =>
      rw [ends, List.mem_eraseDups, List.mem_flatMap] at h
      obtain ⟨u, hu, ht⟩ := h
      exact (iha hu).trans (ihb ht)
  | alt a b iha ihb =>
      rw [ends, List.mem_eraseDups, List.mem_append] at h
      exact h.elim iha ihb
  | repeated p min extra greedy ih =>
      rw [ends, List.mem_eraseDups, List.mem_flatMap] at h
      obtain ⟨u, hu, ht⟩ := h
      obtain ⟨s', hs, hsu⟩ := mem_exactly.mp hu
      obtain ⟨k, _, hut⟩ := (mem_upTo fun _ _ => ih).mp ht
      rw [← List.mem_singleton.mp hs]
      exact (hsu.onto fun _ _ => ih).trans (hut.onto fun _ _ => ih)

/-- The ends of a repetition are those of the least number of steps and of further ones. -/
theorem mem_ends_repeated {p : Pattern} {extra : Option Nat} {greedy : Bool} :
    t ∈ (repeated p m extra greedy).ends s ↔
      ∃ u, Chain (fun s t => t ∈ p.ends s) m s u ∧
        match extra with
        | none => Chained (fun s t => t ∈ p.ends s) u t
        | some n => ∃ k ≤ n, Chain (fun s t => t ∈ p.ends s) k u t := by
  rw [ends, List.mem_eraseDups, List.mem_flatMap]
  refine exists_congr fun u => and_congr (by simp [mem_exactly]) ?_
  cases extra with
  | none => exact mem_upTo_length fun _ _ => onto_of_mem_ends
  | some n => exact mem_upTo fun _ _ => onto_of_mem_ends

end Lexicolor.Pattern
