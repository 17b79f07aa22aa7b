import Mathlib
import Lexicolor.Color.Hex
import Lexicolor.Proofs.Text.Joining

/-!
# The notation of colours

A colour is read from six or eight hexadecimal digits of either case. Its own
text has the digits in small letters behind one hash, so reading and writing undo
each other but for the case and the hash. Of hashes before the digits the reader
takes any number, where the notation has one at most.
-/

namespace Lexicolor

variable {c high low : Char} {n : Nat} {ds : List Char} {s : String}

/-! ## Digits -/

namespace Text

/-- An ASCII digit, or a letter up to F of either case. -/
def IsHexDigit (c : Char) : Prop := c.isDigit ∨ ('a' ≤ c ∧ c ≤ 'f') ∨ ('A' ≤ c ∧ c ≤ 'F')

theorem isSome_hexValue? : (hexValue? c).isSome ↔ IsHexDigit c := by
  unfold hexValue? IsHexDigit
  split_ifs <;> simp_all

theorem le_iff_toNat_le {d : Char} : c ≤ d ↔ c.toNat ≤ d.toNat := UInt32.le_iff_toNat_le

theorem toNat_toLower (c : Char) :
    c.toLower.toNat = if 65 ≤ c.toNat ∧ c.toNat ≤ 90 then c.toNat + 32 else c.toNat := by
  have hupper : c.isUpper ↔ 65 ≤ c.toNat ∧ c.toNat ≤ 90 := by
    simp [Char.isUpper, UInt32.le_iff_toNat_le]
  split
  next h =>
    rw [Char.toLower_eq_of_isUpper (hupper.mpr h), Char.toNat_ofNat, if_pos (by left; omega)]
  next h => rw [Char.toLower_eq_of_not_isUpper (mt hupper.mp h)]

theorem toNat_digitChar (h : n < 16) :
    (Nat.digitChar n).toNat = if n < 10 then n + 48 else n + 87 := by
  revert n
  decide

/-- A character has the value of a digit if its small letter is the digit. -/
theorem hexValue?_eq_some_iff : hexValue? c = some n ↔ n < 16 ∧ c.toLower = Nat.digitChar n := by
  have hvalue : hexValue? c = some n ↔
      (48 ≤ c.toNat ∧ c.toNat ≤ 57 ∧ n + 48 = c.toNat) ∨
      (97 ≤ c.toNat ∧ c.toNat ≤ 102 ∧ n + 87 = c.toNat) ∨
      (65 ≤ c.toNat ∧ c.toNat ≤ 70 ∧ n + 55 = c.toNat) := by
    simp only [hexValue?, Char.isDigit_iff_toNat, le_iff_toNat_le]
    simp only [Char.reduceToNat]
    split_ifs <;> simp only [Option.some.injEq, false_iff] <;> omega
  rw [hvalue]
  constructor
  · intro h
    have hn : n < 16 := by omega
    refine ⟨hn, ?_⟩
    rw [← Char.toNat_inj, toNat_toLower, toNat_digitChar hn]
    split_ifs <;> omega
  · intro h
    obtain ⟨hn, h⟩ := h
    rw [← Char.toNat_inj, toNat_toLower, toNat_digitChar hn] at h
    split_ifs at h <;> omega

/-- Two digits spell the byte whose own digits are their small letters. -/
theorem hexNumber?_eq_some_iff : hexNumber? [high, low] = some n ↔
    n < 256 ∧ hexPair n = [high.toLower, low.toLower] := by
  have hpair : hexNumber? [high, low] = some n ↔
      ∃ a b, hexValue? high = some a ∧ hexValue? low = some b ∧ a * 16 + b = n := by
    cases hhigh : hexValue? high <;> cases hlow : hexValue? low <;>
      simp [hexNumber?, hexAppend?, hhigh, hlow]
  simp only [hpair, hexValue?_eq_some_iff, hexPair, List.cons.injEq, and_true]
  constructor
  · rintro ⟨a, b, ⟨ha, hhigh⟩, ⟨hb, hlow⟩, rfl⟩
    refine ⟨by omega, ?_, ?_⟩
    · rw [hhigh]
      congr 1
      omega
    · rw [hlow]
      congr 1
      omega
  · intro h
    obtain ⟨hn, hhigh, hlow⟩ := h
    exact ⟨n / 16 % 16, n % 16, ⟨Nat.mod_lt _ (by decide), hhigh.symm⟩,
      ⟨Nat.mod_lt _ (by decide), hlow.symm⟩, by omega⟩

end Text

namespace Color

variable {color : Color} {byte : UInt8}

theorem channel?_eq_some_iff : channel? high low = some byte ↔
    Text.hexPair byte.toNat = [high.toLower, low.toLower] := by
  rw [channel?, Option.map_eq_some_iff]
  constructor
  · intro h
    obtain ⟨n, hnumber, rfl⟩ := h
    obtain ⟨hn, hpair⟩ := Text.hexNumber?_eq_some_iff.mp hnumber
    rwa [UInt8.toNat_ofNat_of_lt' hn]
  · intro h
    exact ⟨byte.toNat, Text.hexNumber?_eq_some_iff.mpr ⟨byte.toNat_lt, h⟩, UInt8.ofNat_toNat⟩

/-- The digits of a colour in its text. -/
def digits (color : Color) : List Char :=
  ([color.red, color.green, color.blue] ++ color.alpha.toList).flatMap fun channel =>
    Text.hexPair channel.toNat

theorem toList_toHex (color : Color) : color.toHex.toList = '#' :: color.digits :=
  String.toList_ofList

/-- Six or eight hexadecimal digits. -/
structure IsDigits (ds : List Char) : Prop where
  length : ds.length = 6 ∨ ds.length = 8
  isHex : ∀ c ∈ ds, Text.IsHexDigit c

theorem isDigits_of_digits (h : color.digits = Text.asciiLower ds) : IsDigits ds := by
  constructor
  · have hlength := congrArg List.length h
    rw [Text.asciiLower, List.length_map] at hlength
    rw [← hlength]
    cases halpha : color.alpha <;> simp [digits, Text.hexPair, halpha]
  · intro c hc
    have hlower : c.toLower ∈ color.digits := h ▸ List.mem_map_of_mem hc
    rw [digits, List.mem_flatMap] at hlower
    obtain ⟨channel, -, hlower⟩ := hlower
    have hdigit : ∃ n < 16, c.toLower = Nat.digitChar n := by
      rcases List.mem_pair.mp hlower with heq | heq
      · exact ⟨_, Nat.mod_lt _ (by decide), heq⟩
      · exact ⟨_, Nat.mod_lt _ (by decide), heq⟩
    obtain ⟨n, hn, heq⟩ := hdigit
    rw [← Text.isSome_hexValue?, Text.hexValue?_eq_some_iff.mpr ⟨hn, heq⟩]
    rfl

/-- Digits spell the colour whose own digits are their small letters. -/
theorem ofDigits?_eq_some_iff : ofDigits? ds = some color ↔ color.digits = Text.asciiLower ds := by
  obtain ⟨red, green, blue, alpha⟩ := color
  unfold ofDigits?
  split
  next r₁ r₂ g₁ g₂ b₁ b₂ =>
    cases alpha <;>
      simp [digits, Text.asciiLower, Text.hexPair, channel?_eq_some_iff, Option.bind_eq_some_iff,
        and_assoc]
  next r₁ r₂ g₁ g₂ b₁ b₂ a₁ a₂ =>
    cases alpha <;>
      simp [digits, Text.asciiLower, Text.hexPair, channel?_eq_some_iff, Option.bind_eq_some_iff,
        and_assoc]
  next hsix height =>
    simp only [reduceCtorEq, false_iff]
    intro h
    rcases (isDigits_of_digits h).length with hlength | hlength
    · match ds, hlength with
      | [_, _, _, _, _, _], _ => exact hsix _ _ _ _ _ _ rfl
    · match ds, hlength with
      | [_, _, _, _, _, _, _, _], _ => exact height _ _ _ _ _ _ _ _ rfl

theorem isSome_channel? (hhigh : Text.IsHexDigit high) (hlow : Text.IsHexDigit low) :
    (channel? high low).isSome := by
  obtain ⟨a, ha⟩ := Option.isSome_iff_exists.mp (Text.isSome_hexValue?.mpr hhigh)
  obtain ⟨b, hb⟩ := Option.isSome_iff_exists.mp (Text.isSome_hexValue?.mpr hlow)
  simp [channel?, Text.hexNumber?, Text.hexAppend?, ha, hb]

/-- Six or eight digits spell a colour, and nothing else does. -/
theorem exists_ofDigits?_iff : (∃ color, ofDigits? ds = some color) ↔ IsDigits ds := by
  constructor
  · rintro ⟨color, h⟩
    exact isDigits_of_digits (ofDigits?_eq_some_iff.mp h)
  · intro h
    obtain ⟨hlength, hdigits⟩ := h
    -- any two digits give a channel
    have hchannel : ∀ high ∈ ds, ∀ low ∈ ds, ∃ byte, channel? high low = some byte :=
      fun high hhigh low hlow =>
        Option.isSome_iff_exists.mp (isSome_channel? (hdigits high hhigh) (hdigits low hlow))
    rcases hlength with hsix | height
    · match ds, hsix with
      | [r₁, r₂, g₁, g₂, b₁, b₂], _ =>
        obtain ⟨red, hred⟩ := hchannel r₁ (by simp) r₂ (by simp)
        obtain ⟨green, hgreen⟩ := hchannel g₁ (by simp) g₂ (by simp)
        obtain ⟨blue, hblue⟩ := hchannel b₁ (by simp) b₂ (by simp)
        exact ⟨⟨red, green, blue, none⟩, by simp [ofDigits?, hred, hgreen, hblue]⟩
    · match ds, height with
      | [r₁, r₂, g₁, g₂, b₁, b₂, a₁, a₂], _ =>
        obtain ⟨red, hred⟩ := hchannel r₁ (by simp) r₂ (by simp)
        obtain ⟨green, hgreen⟩ := hchannel g₁ (by simp) g₂ (by simp)
        obtain ⟨blue, hblue⟩ := hchannel b₁ (by simp) b₂ (by simp)
        obtain ⟨alpha, halpha⟩ := hchannel a₁ (by simp) a₂ (by simp)
        exact ⟨⟨red, green, blue, alpha⟩, by simp [ofDigits?, hred, hgreen, hblue, halpha]⟩

/-! ## Hashes -/

/-- The text is the digits behind so many hashes. -/
def HashesBefore (s : String) (k : Nat) (ds : List Char) : Prop :=
  IsDigits ds ∧ s.toList = List.replicate k '#' ++ ds

theorem IsDigits.hash_notMem (h : IsDigits ds) : '#' ∉ ds := fun hmem =>
  absurd (h.isHex '#' hmem) (by simp [Text.IsHexDigit])

theorem HashesBefore.dropWhile {k : Nat} (h : HashesBefore s k ds) :
    s.toList.dropWhile (· = '#') = ds := by
  rw [h.2]
  refine Text.dropWhile_append_of_head (fun c hc => ?_) (fun c hc => ?_)
  · exact decide_eq_true (List.eq_of_mem_replicate hc)
  · intro hhash
    exact h.1.hash_notMem (of_decide_eq_true hhash ▸ List.mem_of_mem_head? hc)

theorem HashesBefore.unique {k k' : Nat} {ds' : List Char} (h : HashesBefore s k ds)
    (h' : HashesBefore s k' ds') : k = k' ∧ ds = ds' := by
  obtain rfl : ds = ds' := h.dropWhile.symm.trans h'.dropWhile
  have htext := h.2.symm.trans h'.2
  rw [List.append_cancel_right_eq] at htext
  exact ⟨by simpa using congrArg List.length htext, rfl⟩

theorem exists_hashesBefore_iff :
    (∃ k ds, HashesBefore s k ds) ↔ IsDigits (s.toList.dropWhile (· = '#')) := by
  constructor
  · rintro ⟨k, ds, h⟩
    rw [h.dropWhile]
    exact h.1
  · intro h
    refine ⟨(s.toList.takeWhile (· = '#')).length, _, h, ?_⟩
    have hhashes : s.toList.takeWhile (· = '#') =
        List.replicate (s.toList.takeWhile (· = '#')).length '#' :=
      List.eq_replicate_of_mem fun c hc => by simpa using List.mem_takeWhile_imp hc
    rw [← hhashes, List.takeWhile_append_dropWhile]

/-- Digits behind any number of hashes are read as the colour with the same digits. -/
theorem read_eq_ok_iff : read s = .ok color ↔
    ∃ k ds, HashesBefore s k ds ∧ color.digits = Text.asciiLower ds := by
  have hread : read s = .ok color ↔ ofDigits? (s.toList.dropWhile (· = '#')) = some color := by
    unfold read
    split <;> simp_all
  rw [hread, ofDigits?_eq_some_iff]
  constructor
  · intro h
    obtain ⟨k, ds, hbefore⟩ := exists_hashesBefore_iff.mpr (isDigits_of_digits h)
    exact ⟨k, ds, hbefore, hbefore.dropWhile ▸ h⟩
  · rintro ⟨k, ds, hbefore, h⟩
    rwa [hbefore.dropWhile]

/-- What is refused is named as it stands. -/
theorem read_eq_error_iff {problem : Problem} : read s = .error problem ↔
    problem = .invalidColor s ∧ ∀ k ds, ¬HashesBefore s k ds := by
  have hnone : ofDigits? (s.toList.dropWhile (· = '#')) = none ↔ ∀ k ds, ¬HashesBefore s k ds := by
    rw [← not_iff_not, ← ne_eq, Option.ne_none_iff_exists', exists_ofDigits?_iff,
      ← exists_hashesBefore_iff]
    simp only [not_forall, not_not]
  rw [← hnone, read]
  cases ofDigits? (s.toList.dropWhile (· = '#')) <;> simp [eq_comm]

/-! ## The notation -/

/-- The text is six or eight digits, with a hash before them or without one. -/
def IsNotation (s : String) (ds : List Char) : Prop :=
  IsDigits ds ∧ (s.toList = ds ∨ s.toList = '#' :: ds)

/-- The text is treated as the notation says: digits are read as the colour that has them, and what
is no notation is refused as it stands. -/
structure FollowsNotation (s : String) : Prop where
  reads : ∀ ds, IsNotation s ds →
    ∃ color, read s = .ok color ∧ color.toHex = String.ofList ('#' :: Text.asciiLower ds)
  refuses : (∀ ds, ¬IsNotation s ds) → read s = .error (.invalidColor s)

theorem isNotation_iff : IsNotation s ds ↔ ∃ k ≤ 1, HashesBefore s k ds := by
  constructor
  · rintro ⟨hdigits, htext | htext⟩
    · exact ⟨0, by decide, hdigits, htext⟩
    · exact ⟨1, by decide, hdigits, htext⟩
  · rintro ⟨k, hk, hdigits, htext⟩
    refine ⟨hdigits, ?_⟩
    interval_cases k
    · exact .inl htext
    · exact .inr htext

theorem toHex_eq_iff : color.toHex = String.ofList ('#' :: Text.asciiLower ds) ↔
    color.digits = Text.asciiLower ds := by
  rw [← String.toList_inj, toList_toHex, String.toList_ofList, List.cons_inj_right]

theorem asciiLower_digits (color : Color) : Text.asciiLower color.digits = color.digits := by
  have hlower : ∀ n < 16, (Nat.digitChar n).toLower = Nat.digitChar n := by decide
  refine (List.map_congr_left fun c hc => ?_).trans (List.map_id _)
  obtain ⟨channel, -, hc⟩ := List.mem_flatMap.mp hc
  rcases List.mem_pair.mp hc with rfl | rfl
  · exact hlower _ (Nat.mod_lt _ (by decide))
  · exact hlower _ (Nat.mod_lt _ (by decide))

/-- The reader follows the notation exactly where no two hashes stand before digits. -/
theorem followsNotation_iff : FollowsNotation s ↔ ∀ k ds, HashesBefore s k ds → k ≤ 1 := by
  constructor
  · intro h k ds hbefore
    by_contra hk
    have hnone : ∀ ds, ¬IsNotation s ds := by
      intro ds' hds'
      obtain ⟨k', hk', hbefore'⟩ := isNotation_iff.mp hds'
      exact hk ((hbefore.unique hbefore').1 ▸ hk')
    exact (read_eq_error_iff.mp (h.refuses hnone)).2 k ds hbefore
  · intro h
    constructor
    · intro ds hds
      obtain ⟨k, -, hbefore⟩ := isNotation_iff.mp hds
      obtain ⟨color, hcolor⟩ := exists_ofDigits?_iff.mpr hds.1
      have hdigits := ofDigits?_eq_some_iff.mp hcolor
      exact ⟨color, read_eq_ok_iff.mpr ⟨k, ds, hbefore, hdigits⟩, toHex_eq_iff.mpr hdigits⟩
    · intro hnone
      refine read_eq_error_iff.mpr ⟨rfl, fun k ds hbefore => ?_⟩
      exact hnone ds (isNotation_iff.mpr ⟨k, h k ds hbefore, hbefore⟩)

/-- The reader follows the notation exactly where no two hashes stand before digits. Whatever the
hashes, a colour is read from the digits that its text has, and from its own text. -/
theorem read_followsNotation_iff (s : String) :
    (FollowsNotation s ↔ ∀ k ds, HashesBefore s k ds → k ≤ 1) ∧
    (∀ color, read s = .ok color ↔ ∃ k ds, HashesBefore s k ds ∧
      color.toHex = String.ofList ('#' :: Text.asciiLower ds)) ∧
    (∀ problem, read s = .error problem ↔
      problem = .invalidColor s ∧ ∀ k ds, ¬HashesBefore s k ds) ∧
    ∀ color : Color, read color.toHex = .ok color := by
  refine ⟨followsNotation_iff, fun color => ?_, fun problem => read_eq_error_iff, fun color => ?_⟩
  · simp only [toHex_eq_iff]
    exact read_eq_ok_iff
  · have hlower := asciiLower_digits color
    have hbefore : HashesBefore color.toHex 1 color.digits :=
      ⟨isDigits_of_digits hlower.symm, toList_toHex color⟩
    exact read_eq_ok_iff.mpr ⟨1, color.digits, hbefore, hlower.symm⟩

/-- Two hashes are read like one. -/
theorem not_forall_followsNotation : ¬∀ s, FollowsNotation s := by
  intro h
  have hdigits : IsDigits "aabbcc".toList := ⟨.inl rfl, by simp [Text.IsHexDigit]⟩
  have hle := followsNotation_iff.mp (h "##aabbcc") 2 _ ⟨hdigits, rfl⟩
  exact absurd hle (by decide)

end Color

end Lexicolor
