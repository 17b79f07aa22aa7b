import Lexicolor.Pattern.Chain
import Lexicolor.Pattern.Progress

/-!
# What a search finds

Moving marks over a text finds a match exactly where the pattern has one:
`isIn_iff` ties the search to the ends of matches.
-/

namespace Lexicolor.Pattern

namespace Progress

variable {p : Progress} {s t u : Spot} {c : Char} {enter : Bool} {n : Nat}

/-- The pattern, whatever marks it holds, matches from one spot to another. -/
def Matches : Progress → Spot → Spot → Prop
  | empty, s, t => t = s
  | place a, s, t => a.holds s ∧ t = s
  | one c _, s, t => ∃ x rest, s.rest = x :: rest ∧ c.holds x ∧ t = ⟨some x, rest⟩
  | seq a b, s, t => ∃ u, Matches a s u ∧ Matches b u t
  | alt a b, s, t => Matches a s t ∨ Matches b s t
  | many a, s, t => Chained (Matches a) s t

/-- A match in progress at the first spot goes on to the second. -/
def Completes : Progress → Spot → Spot → Prop
  | empty, _, _ => False
  | place _, _, _ => False
  | one _ mark, s, t => mark ∧ t = s
  | seq a b, s, t => (∃ u, Completes a s u ∧ b.Matches u t) ∨ Completes b s t
  | alt a b, s, t => Completes a s t ∨ Completes b s t
  | many a, s, t => ∃ u, Completes a s u ∧ Chained a.Matches u t

theorem Matches.onto (h : p.Matches s t) : s.Onto t := by
  induction p generalizing s t with
  | empty => exact .inl h
  | place a => exact .inl h.2
  | one c mark =>
      obtain ⟨x, rest, hs, _, rfl⟩ := h
      exact .inr (by simp [hs])
  | seq a b iha ihb =>
      obtain ⟨u, hu, ht⟩ := h
      exact (iha hu).trans (ihb ht)
  | alt a b iha ihb => exact h.elim iha ihb
  | many a ih => exact Chained.onto (fun _ _ => ih) h

theorem Completes.onto (h : p.Completes s t) : s.Onto t := by
  induction p generalizing s t with
  | empty => exact h.elim
  | place a => exact h.elim
  | one c mark => exact .inl h.2
  | seq a b iha ihb =>
      rcases h with ⟨u, hu, ht⟩ | h
      · exact (iha hu).trans ht.onto
      · exact ihb h
  | alt a b iha ihb => exact h.elim iha ihb
  | many a ih =>
      obtain ⟨u, hu, ht⟩ := h
      exact (ih hu).trans (ht.onto fun _ _ => Matches.onto)

theorem skips_iff : p.skips s ↔ p.Matches s s := by
  induction p with
  | empty => simp [skips, Matches]
  | place a => simp [skips, Matches]
  | one c mark =>
      simp only [skips, Matches, Bool.false_eq_true, false_iff]
      rintro ⟨x, rest, hs, _, h⟩
      have := congrArg (fun s => s.rest.length) h
      simp [hs] at this
  | seq a b iha ihb =>
      rw [skips, Bool.and_eq_true, iha, ihb]
      constructor
      · exact fun h => ⟨s, h.1, h.2⟩
      · rintro ⟨u, hu, h⟩
        cases hu.onto.antisymm h.onto
        exact ⟨hu, h⟩
  | alt a b iha ihb => rw [skips, Bool.or_eq_true, iha, ihb, Matches]
  | many a _ => simp only [skips, true_iff]; exact Chained.refl

theorem stops_iff : p.stops s ↔ p.Completes s s := by
  induction p with
  | empty => simp [stops, Completes]
  | place a => simp [stops, Completes]
  | one c mark => simp [stops, Completes]
  | seq a b iha ihb =>
      rw [stops, Bool.or_eq_true, Bool.and_eq_true, iha, ihb, skips_iff, Completes, or_comm]
      refine or_congr_left ⟨fun h => ⟨s, h.2, h.1⟩, ?_⟩
      rintro ⟨u, hu, h⟩
      cases hu.onto.antisymm h.onto
      exact ⟨h, hu⟩
  | alt a b iha ihb => rw [stops, Bool.or_eq_true, iha, ihb, Completes]
  | many a ih =>
      rw [stops, ih]
      constructor
      · exact fun h => ⟨s, h, .refl⟩
      · rintro ⟨u, hu, h⟩
        cases hu.onto.antisymm (h.onto fun _ _ => Matches.onto)
        exact hu

theorem matches_advance : (p.advance u c enter).Matches = p.Matches := by
  induction p generalizing enter with
  | empty | place | one => rfl
  | seq a b iha ihb => funext s t; simp only [advance, Matches, iha, ihb]
  | alt a b iha ihb => funext s t; simp only [advance, Matches, iha, ihb]
  | many a ih => funext s t; simp only [advance, Matches, ih]

/-- After a move, the matches in progress are those from before, and with `enter` those that start
at the spot, as far as they go on past the character. -/
theorem completes_advance {last : Option Char} {cs : List Char} :
    (p.advance ⟨last, c :: cs⟩ c enter).Completes ⟨some c, cs⟩ t ↔
      t.rest.length < cs.length + 1 ∧
        ((enter ∧ p.Matches ⟨last, c :: cs⟩ t) ∨ p.Completes ⟨last, c :: cs⟩ t) := by
  induction p generalizing enter t with
  | empty =>
      simp only [advance, Completes, Matches, false_iff]
      rintro ⟨h, ⟨_, rfl⟩ | h⟩
      · exact Nat.lt_irrefl _ h
      · exact h
  | place a =>
      simp only [advance, Completes, Matches, false_iff]
      rintro ⟨h, ⟨_, _, rfl⟩ | h⟩
      · exact Nat.lt_irrefl _ h
      · exact h
  | one set mark =>
      simp only [advance, Completes, Matches, Bool.and_eq_true]
      constructor
      · rintro ⟨⟨he, hc⟩, rfl⟩
        exact ⟨Nat.lt_succ_self _, .inl ⟨he, c, cs, rfl, hc, rfl⟩⟩
      · rintro ⟨h, ⟨he, x, rest, hs, hx, rfl⟩ | ⟨_, rfl⟩⟩
        · cases hs
          exact ⟨⟨he, hx⟩, rfl⟩
        · exact absurd h (Nat.lt_irrefl _)
  | alt a b iha ihb =>
      simp only [advance, Completes, Matches, iha, ihb]
      grind
  | seq a b iha ihb =>
      simp only [advance, Completes, Matches, iha, ihb, matches_advance, Bool.or_eq_true,
        Bool.and_eq_true, stops_iff, skips_iff]
      constructor
      · rintro (⟨u, ⟨hu, ⟨he, ha⟩ | ha⟩, hb⟩ | ⟨ht, ⟨ha | ⟨he, ha⟩, hb⟩ | hb⟩)
        · exact ⟨hb.onto.length_lt hu, .inl ⟨he, u, ha, hb⟩⟩
        · exact ⟨hb.onto.length_lt hu, .inr (.inl ⟨u, ha, hb⟩)⟩
        · exact ⟨ht, .inr (.inl ⟨_, ha, hb⟩)⟩
        · exact ⟨ht, .inl ⟨he, _, ha, hb⟩⟩
        · exact ⟨ht, .inr (.inr hb)⟩
      -- a match of the first part that stays in place leaves the character to the second part
      · rintro ⟨ht, ⟨he, u, ha, hb⟩ | ⟨u, ha, hb⟩ | hb⟩
        · rcases ha.onto with rfl | hu
          · exact .inr ⟨ht, .inl ⟨.inr ⟨he, ha⟩, hb⟩⟩
          · exact .inl ⟨u, ⟨hu, .inl ⟨he, ha⟩⟩, hb⟩
        · rcases ha.onto with rfl | hu
          · exact .inr ⟨ht, .inl ⟨.inl ha, hb⟩⟩
          · exact .inl ⟨u, ⟨hu, .inr ha⟩, hb⟩
        · exact .inr ⟨ht, .inr hb⟩
  | many a ih =>
      simp only [advance, Completes, Matches, ih, matches_advance, Bool.or_eq_true, stops_iff]
      constructor
      · rintro ⟨u, ⟨hu, ⟨ha | he, hm⟩ | ha⟩, ht⟩
        · exact ⟨(ht.onto fun _ _ => Matches.onto).length_lt hu, .inr ⟨_, ha, .head hm ht⟩⟩
        · exact ⟨(ht.onto fun _ _ => Matches.onto).length_lt hu, .inl ⟨he, .head hm ht⟩⟩
        · exact ⟨(ht.onto fun _ _ => Matches.onto).length_lt hu, .inr ⟨u, ha, ht⟩⟩
      -- rounds that stay in place are left out, so that the next one takes the character
      · rintro ⟨ht, ⟨he, hm⟩ | ⟨u, ha, hm⟩⟩
        · obtain ⟨u, hu, hsu, hut⟩ := hm.exists_advance (fun _ _ => Matches.onto) ht
          exact ⟨u, ⟨hu, .inl ⟨.inr he, hsu⟩⟩, hut⟩
        · rcases ha.onto with rfl | hu
          · obtain ⟨u, hu, hsu, hut⟩ := hm.exists_advance (fun _ _ => Matches.onto) ht
            exact ⟨u, ⟨hu, .inl ⟨.inl ha, hsu⟩⟩, hut⟩
          · exact ⟨u, ⟨hu, .inr ha⟩, hm⟩

theorem reaches_iff {last : Option Char} {cs : List Char} :
    p.reaches last cs ↔ (∃ t, p.Completes ⟨last, cs⟩ t) ∨
      ∃ s ∈ Spot.onwards last cs, ∃ t, p.Matches s t := by
  induction cs generalizing p last with
  | nil =>
      simp only [reaches, Bool.or_eq_true, skips_iff, stops_iff, Spot.onwards, List.mem_singleton,
        exists_eq_left]
      constructor
      · exact fun h => h.symm.imp (⟨_, ·⟩) (⟨_, ·⟩)
      · rintro (⟨t, h⟩ | ⟨t, h⟩)
        · rcases h.onto with rfl | hlt
          · exact .inr h
          · exact absurd hlt (Nat.not_lt_zero _)
        · rcases h.onto with rfl | hlt
          · exact .inl h
          · exact absurd hlt (Nat.not_lt_zero _)
  | cons c cs ih =>
      simp only [reaches, Bool.or_eq_true, skips_iff, stops_iff, ih, completes_advance,
        matches_advance, Spot.onwards, List.mem_cons, exists_eq_or_imp, true_and]
      constructor
      · rintro ((h | h) | ⟨t, _, h | h⟩ | h)
        · exact .inr (.inl ⟨_, h⟩)
        · exact .inl ⟨_, h⟩
        · exact .inr (.inl ⟨t, h⟩)
        · exact .inl ⟨t, h⟩
        · exact .inr (.inr h)
      · rintro (⟨t, h⟩ | ⟨t, h⟩ | h)
        · rcases h.onto with rfl | hlt
          · exact .inl (.inr h)
          · exact .inr (.inl ⟨t, hlt, .inr h⟩)
        · rcases h.onto with rfl | hlt
          · exact .inl (.inl h)
          · exact .inr (.inl ⟨t, hlt, .inl h⟩)
        · exact .inr (.inr h)

theorem not_completes_times {next : Progress} (hp : ∀ s t, ¬p.Completes s t)
    (hnext : ∀ s t, ¬next.Completes s t) : ¬(times p next n).Completes s t := by
  induction n generalizing s t with
  | zero => exact hnext s t
  | succ n ih =>
      rintro (⟨u, h, _⟩ | h)
      · exact hp s u h
      · exact ih h

theorem not_completes_upTo (hp : ∀ s t, ¬p.Completes s t) : ¬(upTo p n).Completes s t := by
  induction n generalizing s t with
  | zero => exact id
  | succ n ih =>
      rintro ((⟨u, h, _⟩ | h) | h)
      · exact hp s u h
      · exact ih h
      · exact h

theorem not_completes_ofPattern {bound : Nat} {p : Pattern} :
    ¬(ofPattern bound p).Completes s t := by
  induction p generalizing s t with
  | empty => exact id
  | one c => exact fun h => Bool.false_ne_true h.1
  | place a => exact id
  | seq a b iha ihb =>
      rintro (⟨u, h, _⟩ | h)
      · exact iha h
      · exact ihb h
  | alt a b iha ihb => exact fun h => h.elim iha ihb
  | repeated p least extra greedy ih =>
      refine not_completes_times (fun _ _ => ih) fun s t => ?_
      cases extra with
      | none => exact fun ⟨_, h, _⟩ => ih h
      | some n => exact not_completes_upTo fun _ _ => ih

theorem matches_times {next : Progress} :
    (times p next n).Matches s t ↔ ∃ u, Chain p.Matches n s u ∧ next.Matches u t := by
  induction n generalizing s with
  | zero => simp [times, Chain]
  | succ n ih =>
      simp only [times, Matches, ih, Chain]
      constructor
      · rintro ⟨v, hv, u, hu, h⟩
        exact ⟨u, ⟨v, hv, hu⟩, h⟩
      · rintro ⟨u, ⟨v, hv, hu⟩, h⟩
        exact ⟨v, hv, u, hu, h⟩

theorem matches_upTo : (upTo p n).Matches s t ↔ ∃ k ≤ n, Chain p.Matches k s t := by
  induction n generalizing s with
  | zero => simp [upTo, Matches, Chain]
  | succ n ih =>
      simp only [upTo, Matches, ih]
      constructor
      · rintro (⟨u, hu, k, hk, h⟩ | rfl)
        · exact ⟨k + 1, by omega, u, hu, h⟩
        · exact ⟨0, by omega, rfl⟩
      · rintro ⟨k, hk, h⟩
        cases k with
        | zero => exact .inr h
        | succ k =>
            obtain ⟨u, hu, h⟩ := h
            exact .inl ⟨u, hu, k, by omega, h⟩

/-- A pattern spelled out matches as it does itself where fewer characters than the bound are
left. -/
theorem matches_ofPattern {bound : Nat} {p : Pattern} (hs : s.rest.length < bound) :
    (ofPattern bound p).Matches s t ↔ t ∈ p.ends s := by
  induction p generalizing s t with
  | empty => simp [ofPattern, Matches, ends]
  | one c =>
      obtain ⟨last, _ | ⟨x, rest⟩⟩ := s
      · simp [ofPattern, Matches, ends]
      · constructor
        · rintro ⟨_, _, hr, hx, rfl⟩
          cases hr
          simp [ends, hx]
        · intro h
          by_cases hx : c.holds x <;> simp [ends, hx] at h
          exact ⟨x, rest, rfl, hx, h⟩
  | place a => by_cases ha : a.holds s <;> simp [ofPattern, Matches, ends, ha]
  | seq a b iha ihb =>
      rw [ends, List.mem_eraseDups, List.mem_flatMap]
      exact exists_congr fun u => (and_congr_left' (iha hs)).trans
        (and_congr_right fun hu => ihb ((onto_of_mem_ends hu).length_lt hs))
  | alt a b iha ihb =>
      rw [ends, List.mem_eraseDups, List.mem_append]
      exact or_congr (iha hs) (ihb hs)
  | repeated p least extra greedy ih =>
      -- the steps agree wherever the chains get to, as no spot there has more characters left
      have agree {u v : Spot} (hu : s.Onto u) :
          (ofPattern bound p).Matches u v ↔ v ∈ p.ends u := ih (hu.length_lt hs)
      have chains {n : Nat} {u v : Spot} (hu : s.Onto u) :
          Chain (ofPattern bound p).Matches n u v ↔ Chain (fun s t => t ∈ p.ends s) n u v :=
        chain_congr (fun _ _ => Matches.onto) fun _ _ h => agree (hu.trans h)
      rw [mem_ends_repeated]
      refine matches_times.trans ?_
      refine exists_congr fun u => ?_
      rw [chain_min_iff (fun _ _ => Matches.onto) hs, chains (.inl rfl)]
      refine and_congr_right fun hsu => ?_
      have hu := hsu.onto fun _ _ => onto_of_mem_ends
      cases extra with
      | none => exact exists_congr fun k => chains hu
      | some n =>
          rw [matches_upTo]
          constructor
          · rintro ⟨k, hk, h⟩
            exact ⟨k, by omega, (chains hu).mp h⟩
          · rintro ⟨k, hk, h⟩
            refine ⟨min k bound, by omega, ?_⟩
            rw [chain_min_iff (fun _ _ => Matches.onto) (hu.length_lt hs)]
            exact (chains hu).mpr h

end Progress

theorem length_of_mem_onwards {last : Option Char} {cs : List Char} {s : Spot}
    (h : s ∈ Spot.onwards last cs) : s.rest.length ≤ cs.length := by
  induction cs generalizing last with
  | nil => cases List.mem_singleton.mp h; exact Nat.le_refl _
  | cons c cs ih =>
      rcases List.mem_cons.mp h with rfl | h
      · exact Nat.le_refl _
      · exact Nat.le_succ_of_le (ih h)

/-- The search finds a match if and only if one starts somewhere in the text. -/
theorem isIn_iff {p : Pattern} {text : List Char} :
    p.isIn text ↔ ∃ s ∈ Spot.onwards none text, ∃ t, t ∈ p.ends s := by
  rw [isIn, Progress.reaches_iff]
  constructor
  · rintro (⟨t, h⟩ | ⟨s, hs, t, h⟩)
    · exact (Progress.not_completes_ofPattern h).elim
    · have := length_of_mem_onwards hs
      exact ⟨s, hs, t, (Progress.matches_ofPattern (by omega)).mp h⟩
  · rintro ⟨s, hs, t, h⟩
    have := length_of_mem_onwards hs
    exact .inr ⟨s, hs, t, (Progress.matches_ofPattern (by omega)).mpr h⟩

end Lexicolor.Pattern
