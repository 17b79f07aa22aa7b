import Mathlib
import Lexicolor.Proofs.Json.Notation

/-!
# Numbers as literals

The text of a number is a number literal. The digits of an integer have no zeros
before them, and a double has digits on both sides of its point and behind its
exponent. That rests on the shortest decimal of a double: it is zero only where
it has no exponent.
-/

namespace Lexicolor

/-! ## Shortest decimals -/

namespace Decimal

variable {b : Binary} {r : Ratio} {d : Decimal} {k : Int} {n : Nat}

/-- Zero has no exponent. -/
def Proper (d : Decimal) : Prop := d.digits = 0 → d.exponent = 0

theorem Ratio.scaled_num_pos (h : 0 < n) (k : Int) : 0 < (Ratio.scaled n k).num := by
  rw [scaled]
  split
  · exact Nat.shiftLeft_eq n _ ▸ Nat.mul_pos h (Nat.two_pow_pos _)
  · exact h

theorem Ratio.shift_num_pos (h : 0 < r.num) (k : Int) : 0 < (r.shift k).num := by
  rw [shift]
  split
  · exact h
  · exact Nat.mul_pos h (Nat.pow_pos (by decide))

/-- Zero does not round to a positive double. -/
theorem Binary.holds_zero (h : 0 < b.mantissa) (k : Int) : b.holds k 0 = false := by
  have hlow : 0 < 4 * b.mantissa - if b.tight then 1 else 2 := by
    split <;> omega
  have hnum := Ratio.shift_num_pos (Ratio.scaled_num_pos hlow (b.exponent - 2)) k
  rw [holds, Nat.zero_mul, Nat.zero_mul]
  split
  · simp [Nat.not_le.mpr hnum]
  · simp

theorem Binary.pos_of_onGrid? (h : 0 < b.mantissa) (hgrid : b.onGrid? k = some n) : 0 < n := by
  have hpos {m : Nat} (hm : b.holds k m = true) : 0 < m := by
    refine Nat.pos_of_ne_zero fun hzero => ?_
    rw [hzero, b.holds_zero h k] at hm
    cases hm
  rw [onGrid?] at hgrid
  split at hgrid
  next hbelow _ =>
    split at hgrid
    · exact Option.some.inj hgrid ▸ hpos hbelow
    · split at hgrid
      · exact Option.some.inj hgrid ▸ Nat.succ_pos _
      · cases hgrid
        split
        · exact hpos hbelow
        · exact Nat.succ_pos _
  next hbelow _ => exact Option.some.inj hgrid ▸ hpos hbelow
  next => exact Option.some.inj hgrid ▸ Nat.succ_pos _
  next => cases hgrid

theorem stripZeros_digits_pos (fuel : Nat) (h : 0 < d.digits) :
    0 < (stripZeros fuel d).digits := by
  induction fuel generalizing d with
  | zero => exact h
  | succ fuel ih =>
      rw [stripZeros]
      split
      next hzeros =>
        refine ih ?_
        have := hzeros.2
        show 0 < d.digits / 10
        omega
      next => exact h

theorem Binary.shortest_proper (h : 0 < b.mantissa) : b.shortest.Proper := by
  intro hzero
  rw [shortest] at hzero ⊢
  cases hfound : (List.range 17).findSome? fun n : Nat =>
      (b.onGrid? ((Ratio.scaled b.mantissa b.exponent).log10 - n)).map fun d =>
        Decimal.mk d ((Ratio.scaled b.mantissa b.exponent).log10 - n) with
  | none => rfl
  | some d =>
      rw [hfound] at hzero
      obtain ⟨m, -, hm⟩ := List.exists_of_findSome?_eq_some hfound
      obtain ⟨digits, hgrid, rfl⟩ := Option.map_eq_some_iff.mp hm
      have hpos : 0 < digits := pos_of_onGrid? h hgrid
      exact absurd hzero (stripZeros_digits_pos 17 hpos).ne'

/-- The magnitude of a double that is not zero is positive. -/
theorem Binary.ofBits_mantissa_pos {bits : UInt64} (h : bits ≠ 0) (hbits : bits.toNat < 2 ^ 63) :
    0 < (ofBits bits).mantissa := by
  have hpos : 0 < bits.toNat := by
    refine Nat.pos_of_ne_zero fun hzero => h (UInt64.toNat_inj.mp hzero)
  rw [ofBits]
  split
  next hbiased =>
    simp only [Nat.shiftRight_eq_div_pow, Nat.one_shiftLeft] at hbiased ⊢
    omega
  next =>
    simp only [Nat.one_shiftLeft]
    omega

end Decimal

namespace Json

/-! ## Digits -/

variable {ds es : List Char} {n : Nat} {d : Decimal}

theorem digits_toDigits (n : Nat) : Digits (Nat.toDigits 10 n) :=
  ⟨Nat.toDigits_ne_nil, fun _ => Nat.isDigit_of_mem_toDigits (by decide) (by decide)⟩

theorem isDigit_of_mem_zeros {c : Char} (h : c ∈ List.replicate n '0') : c.isDigit := by
  rw [List.eq_of_mem_replicate h]
  rfl

theorem Digits.append (h : Digits ds) (h' : ∀ c ∈ es, c.isDigit) : Digits (ds ++ es) := by
  refine ⟨List.append_ne_nil_of_left_ne_nil h.ne_nil es, fun c hc => ?_⟩
  exact (List.mem_append.mp hc).elim (h.isDigit c) (h' c)

theorem Digits.of_sublist (h : Digits ds) (hsub : es.Sublist ds) (hne : es ≠ []) : Digits es :=
  ⟨hne, fun c hc => h.isDigit c (hsub.subset hc)⟩

/-- Only zero starts with a zero. -/
theorem eq_zero_of_head?_toDigits (h : (Nat.toDigits 10 n).head? = some '0') : n = 0 := by
  induction n using Nat.strong_induction_on with
  | _ n ih =>
    by_cases hlt : n < 10
    · rw [Nat.toDigits_of_lt_base hlt] at h
      interval_cases n
      · rfl
      all_goals exact absurd h (by decide)
    · rw [Nat.toDigits_of_base_le (by decide) (by omega), List.head?_append_of_ne_nil _
        Nat.toDigits_ne_nil] at h
      have htens := ih (n / 10) (by omega) h
      omega

theorem integerText_toDigits (n : Nat) : IntegerText (Nat.toDigits 10 n) := by
  refine ⟨digits_toDigits n, fun hhead => ?_⟩
  rw [eq_zero_of_head?_toDigits hhead, Nat.toDigits_zero]

/-! ## Decimals -/

/-- The digits of a proper decimal may be followed by the zeros of its exponent. -/
theorem integerText_append_zeros (h : d.Proper) :
    IntegerText (Nat.toDigits 10 d.digits ++ List.replicate d.exponent.toNat '0') := by
  refine ⟨(digits_toDigits d.digits).append ?_, fun hhead => ?_⟩
  · exact fun c hc => isDigit_of_mem_zeros hc
  · rw [List.head?_append_of_ne_nil _ Nat.toDigits_ne_nil] at hhead
    have hzero : d.digits = 0 := eq_zero_of_head?_toDigits hhead
    rw [h hzero, hzero, Nat.toDigits_zero]
    rfl

/-- Digits of which some stand before the point and some behind it. -/
theorem integerText_take {k : Nat} (hk : 0 < k) (hlt : k < (Nat.toDigits 10 n).length) :
    IntegerText ((Nat.toDigits 10 n).take k) := by
  have hne : (Nat.toDigits 10 n).take k ≠ [] := by
    rw [← List.length_pos_iff, List.length_take]
    omega
  refine ⟨(digits_toDigits n).of_sublist (List.take_sublist _ _) hne, fun hhead => ?_⟩
  rw [List.head?_take, if_neg hk.ne'] at hhead
  rw [eq_zero_of_head?_toDigits hhead, Nat.toDigits_zero, List.length_singleton] at hlt
  omega

/-- A literal without sign. -/
theorem spelled_unsigned {whole ftext etext : List Char} {fraction : Option (List Char)}
    {exponent : Option (Bool × List Char)} (hwhole : IntegerText whole)
    (hfraction : FractionText fraction ftext) (hexponent : ExponentText exponent etext) :
    Numeral.Spelled ⟨false, whole, fraction, exponent⟩ (whole ++ (ftext ++ etext)) :=
  @Numeral.Spelled.mk false _ _ _ _ _ hwhole hfraction hexponent

theorem spelled_point {whole fraction : List Char} (hwhole : IntegerText whole)
    (hfraction : Digits fraction) :
    Numeral.Spelled ⟨false, whole, some fraction, none⟩ (whole ++ '.' :: fraction) := by
  simpa using spelled_unsigned hwhole (.present hfraction) .absent

/-- The first digit, a point and the others where there are any, and a power of ten. -/
theorem exists_spelled_power (n power : Nat) {mark : Char} (hmark : mark = '+' ∨ mark = '-') :
    ∃ numeral : Numeral, numeral.negative = false ∧ numeral.Spelled
      ((match Nat.toDigits 10 n with
        | [] => []
        | [c] => [c]
        | c :: cs => c :: '.' :: cs) ++ 'e' :: mark :: Nat.toDigits 10 power) := by
  have hexponent : ∃ exponent, ExponentText exponent ('e' :: mark :: Nat.toDigits 10 power) := by
    rcases hmark with rfl | rfl
    · exact ⟨_, .present (.inl rfl) .plus (digits_toDigits power)⟩
    · exact ⟨_, .present (.inl rfl) .minus (digits_toDigits power)⟩
  obtain ⟨exponent, hexponent⟩ := hexponent
  split
  next hdigits => exact absurd hdigits Nat.toDigits_ne_nil
  next c hdigits =>
    have hwhole : IntegerText [c] := hdigits ▸ integerText_toDigits n
    exact ⟨_, rfl, spelled_unsigned hwhole .absent hexponent⟩
  next c cs hne hdigits =>
    have hall : Digits (c :: cs) := hdigits ▸ digits_toDigits n
    have hwhole : IntegerText [c] := by
      refine ⟨hall.of_sublist (by simp) (List.cons_ne_nil c []), fun hhead => ?_⟩
      rw [Option.some.inj hhead]
    have hfraction : Digits cs := hall.of_sublist (List.sublist_cons_self c cs) hne
    exact ⟨_, rfl, spelled_unsigned hwhole (.present hfraction) hexponent⟩

/-- A proper decimal is written as a literal without sign. -/
theorem Number.Format.exists_spelled_write (form : Number.Format) (h : d.Proper) :
    ∃ numeral : Numeral, numeral.negative = false ∧ numeral.Spelled (form.write d) := by
  have hdigits := digits_toDigits d.digits
  have hlength : 0 < (Nat.toDigits 10 d.digits).length := Nat.length_toDigits_pos
  have hzero : IntegerText ['0'] := integerText_toDigits 0
  unfold Number.Format.write
  dsimp only
  split
  next hplain =>
    split
    next => exact ⟨_, rfl, spelled_point (integerText_append_zeros h) hzero.digits⟩
    next hexponent =>
      split
      next hpower =>
        have hpoint : (d.exponent + (Nat.toDigits 10 d.digits).length - 1 + 1).toNat <
            (Nat.toDigits 10 d.digits).length := by omega
        refine ⟨_, rfl, spelled_point (integerText_take (by omega) hpoint) ?_⟩
        refine hdigits.of_sublist (List.drop_sublist _ _) ?_
        rw [← List.length_pos_iff, List.length_drop]
        omega
      next hpower =>
        refine ⟨_, rfl, spelled_point hzero ⟨by simp, fun c hc => ?_⟩⟩
        exact (List.mem_append.mp hc).elim isDigit_of_mem_zeros (hdigits.isDigit c)
  next =>
    refine exists_spelled_power _ _ ?_
    split
    · exact .inr rfl
    · exact .inl rfl

theorem Numeral.Spelled.neg {numeral : Numeral} {text : List Char} (h : numeral.Spelled text)
    (hpositive : numeral.negative = false) :
    Numeral.Spelled { numeral with negative := true } ('-' :: text) := by
  cases h with
  | mk hwhole hfraction hexponent =>
      subst hpositive
      exact @Numeral.Spelled.mk true _ _ _ _ _ hwhole hfraction hexponent

/-! ## Numbers -/

theorem toNat_mod (bits : UInt64) (n : Nat) : (bits % n).toNat = bits.toNat % n := by
  have hlt : bits.toNat % n < 2 ^ 64 := (Nat.mod_le _ _).trans_lt bits.toNat_lt
  exact Nat.mod_eq_of_lt hlt

theorem exists_spelled_writeDouble (bits : UInt64) :
    ∃ numeral : Numeral, numeral.Spelled (Number.writeDouble bits) := by
  have htext : ∃ numeral : Numeral, numeral.negative = false ∧ numeral.Spelled
      (if bits % (1 <<< 63) = 0 then ['0', '.', '0']
        else Number.format.write (Decimal.Binary.ofBits (bits % (1 <<< 63))).shortest) := by
    split
    next =>
      have hzero : IntegerText ['0'] := integerText_toDigits 0
      exact ⟨_, rfl, spelled_point hzero hzero.digits⟩
    next hne =>
      refine Number.Format.exists_spelled_write _ (Decimal.Binary.shortest_proper ?_)
      refine Decimal.Binary.ofBits_mantissa_pos hne ?_
      rw [toNat_mod]
      exact Nat.mod_lt _ (by decide)
  obtain ⟨numeral, hpositive, hspelled⟩ := htext
  rw [Number.writeDouble]
  split
  · exact ⟨numeral, hspelled⟩
  · exact ⟨_, hspelled.neg hpositive⟩

/-- The text of a number is a literal. -/
theorem exists_spelled_write (n : Number) : ∃ numeral : Numeral, numeral.Spelled n.write := by
  cases n with
  | integer n =>
      have hspelled : Numeral.Spelled ⟨false, Nat.toDigits 10 n.natAbs, none, none⟩
          (Nat.toDigits 10 n.natAbs) := by
        simpa using spelled_unsigned (integerText_toDigits n.natAbs) .absent .absent
      rw [Number.write, Number.writeInteger]
      split
      · exact ⟨_, hspelled.neg rfl⟩
      · exact ⟨_, hspelled⟩
  | double bits => exact exists_spelled_writeDouble bits

/-- A literal ends with digits. -/
theorem Numeral.Spelled.exists_suffix {numeral : Numeral} {text : List Char}
    (h : numeral.Spelled text) : ∃ ds, ds <:+ text ∧ Digits ds := by
  cases h with
  | @mk _ whole ftext etext _ _ hwhole hfraction hexponent =>
      cases hexponent with
      | @present e _ sign ds _ _ hds =>
          refine ⟨ds, ?_, hds⟩
          have hexponent : ds <:+ e :: (sign ++ ds) :=
            (List.suffix_append sign ds).trans (List.suffix_cons e _)
          have hfraction := hexponent.trans (List.suffix_append ftext _)
          exact (hfraction.trans (List.suffix_append whole _)).trans (List.suffix_append _ _)
      | absent =>
          cases hfraction with
          | @present ds hds =>
              refine ⟨ds, ?_, hds⟩
              have hfraction : ds <:+ '.' :: ds ++ [] := by simp
              exact (hfraction.trans (List.suffix_append whole _)).trans (List.suffix_append _ _)
          | absent =>
              rw [List.append_nil, List.append_nil]
              exact ⟨whole, List.suffix_append _ _, hwhole.digits⟩

theorem exists_getLast?_write (n : Number) : ∃ c, n.write.getLast? = some c ∧ c.isDigit := by
  obtain ⟨numeral, hspelled⟩ := exists_spelled_write n
  obtain ⟨ds, ⟨before, heq⟩, hds⟩ := hspelled.exists_suffix
  refine ⟨ds.getLast hds.ne_nil, ?_, hds.isDigit _ (List.getLast_mem _)⟩
  rw [← heq, List.getLast?_append_of_ne_nil _ hds.ne_nil, List.getLast?_eq_some_getLast]

end Json

end Lexicolor
