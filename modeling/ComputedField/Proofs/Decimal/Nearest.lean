import ComputedField.Proofs.Decimal.Packing
import Mathlib.Data.List.TakeWhile

/-!
# The double nearest to a numeral

A numeral is read as the double among whose reals its value is. There is no such double for values that are
too great, and these are read as an infinity.
-/

namespace ComputedField.Decimal

open Float.Model UnpackedFloat

/-- The least number that is too great for a double, half a step beyond the greatest double. -/
def limit : ℚ := 2 ^ 1024 - 2 ^ 970

/-- Whether a number that has the sign rounds to the double. -/
def Reading.IsNearest (negative : Bool) (q : ℚ) : Reading → Prop
  | .finite n m e => n = negative ∧ (Rounding.of m e).Contains q
  | .infinite n => n = negative ∧ limit ≤ q
  | .nan => False

section Limit

variable {m : Nat} {e : ℤ} {q : ℚ}

theorem limit_eq : limit = (2 ^ 55 - 2) * 2 ^ 969 := by
  rw [limit, sub_mul, ← pow_add, ← pow_succ']

/-- Where the exponent is one that doubles have, nothing that rounds to the mantissa reaches the limit. -/
theorem lt_limit_of_contains (h : IsCanonical m e) (he : e < excessExponent)
    (hq : (Rounding.of m e).Contains q) : q < limit := by
  have hstep : (2 : ℚ) ^ (e - 2) ≤ 2 ^ 969 := by
    rw [← zpow_natCast]
    refine zpow_le_zpow_right₀ one_le_two ?_
    rw [excessExponent] at he
    omega
  have hbits := h.bits
  have hclosed : (Rounding.of m e).closed = true ↔ m % 2 = 0 := beq_iff_eq
  have hhigh {n : Nat} (hn : 4 * m + 2 ≤ n) :
      (Rounding.of m e).high * (2 : ℚ) ^ (Rounding.of m e).exponent ≤ n * 2 ^ 969 :=
    mul_le_mul (Nat.cast_le.mpr hn) hstep (zpow_nonneg two_pos.le _) (Nat.cast_nonneg n)
  have hpos : (0 : ℚ) < 2 ^ 969 := by positivity
  rw [Rounding.Contains] at hq
  split at hq
  · -- The greatest mantissa is odd, so one that is even leaves room.
    rename_i heven
    have hm := hclosed.mp heven
    refine lt_of_le_of_lt (hq.2.trans (hhigh (n := 2 ^ 55 - 6) (by omega))) ?_
    rw [limit_eq, mul_lt_mul_iff_left₀ hpos]
    norm_num
  · refine lt_of_lt_of_le hq.2 ((hhigh (n := 2 ^ 55 - 2) (by omega)).trans_eq ?_)
    rw [limit_eq]
    norm_num

/-- What would need a greater exponent is beyond the limit. -/
theorem limit_le_of_contains (h : IsCanonical m e) (he : excessExponent ≤ e)
    (hq : (Rounding.of m e).Contains q) : limit ≤ q := by
  rw [excessExponent] at he
  have hstep : (2 : ℚ) ^ 970 ≤ 2 ^ (e - 2) := by
    rw [← zpow_natCast]
    exact zpow_le_zpow_right₀ one_le_two (by omega)
  have hnormal : 2 ^ 52 ≤ m := h.normal.resolve_right (by rw [leastExponent]; omega)
  have hlow : 2 ^ 54 - 1 ≤ (Rounding.of m e).low := by
    rw [Rounding.of, Nat.pow_eq]
    dsimp only
    split <;> omega
  have hle : (Rounding.of m e).low * (2 : ℚ) ^ (Rounding.of m e).exponent ≤ q := by
    rw [Rounding.Contains] at hq
    split at hq
    · exact hq.1
    · exact hq.1.le
  calc limit = (2 ^ 54 - 1 : Nat) * 2 ^ 970 := by
        rw [limit_eq, pow_succ' (2 : ℚ) 969, ← mul_assoc]
        norm_num
    _ ≤ (Rounding.of m e).low * 2 ^ (e - 2) :=
        mul_le_mul (Nat.cast_le.mpr hlow) hstep (by positivity) (Nat.cast_nonneg _)
    _ ≤ q := hle

/-- What is packed with the mantissa and the exponent of the double that a number rounds to. -/
theorem isNearest_unpacked (s : Sign) (h : IsCanonical m e) (hq : (Rounding.of m e).Contains q) :
    (Reading.ofPacked (unpacked s m e)).IsNearest (isNegative s) q := by
  rw [ofPacked_unpacked h]
  split
  · exact ⟨rfl, hq⟩
  · rename_i he
    exact ⟨rfl, limit_le_of_contains h (not_lt.mp he) hq⟩

theorem isNearest_roundWithAccuracy (s : Sign) {accuracy : Accuracy}
    (hbits : 2 ^ 52 ≤ m ∨ e ≤ leastExponent)
    (hq : Describes (.ofMantissaAndAccuracy m accuracy) (q / 2 ^ e)) :
    (Reading.ofPacked (roundWithAccuracy Format.binary64 s m e accuracy)).IsNearest (isNegative s) q := by
  obtain ⟨n, k, hcanonical, hcontains, hround⟩ := exists_roundWithAccuracy s hbits hq
  rw [hround]
  exact isNearest_unpacked s hcanonical hcontains

/-- From the limit on, a number rounds to an infinity. -/
theorem eq_infinite_of_limit_le {x : Float} {negative : Bool}
    (h : (Reading.of x).IsNearest negative q) (hq : limit ≤ q) :
    Reading.of x = .infinite negative := by
  cases hx : Reading.of x with
  | nan =>
    rw [hx] at h
    cases h
  | infinite n =>
    rw [hx] at h
    rw [h.1]
  | finite n m e =>
    obtain ⟨hcanonical, he⟩ := isCanonical_of_reading hx
    rw [hx] at h
    exact absurd hq (not_le.mpr (lt_limit_of_contains hcanonical he h.2))

/-- A number rounds to a finite double exactly if it is below the limit. -/
theorem isFinite_iff_lt_limit {x : Float} {negative : Bool}
    (h : (Reading.of x).IsNearest negative q) : x.isFinite = true ↔ q < limit := by
  rw [isFinite_iff]
  constructor
  · rintro ⟨n, m, e, hx⟩
    by_contra hq
    rw [eq_infinite_of_limit_le h (not_lt.mp hq)] at hx
    cases hx
  · intro hq
    cases hx : Reading.of x with
    | nan =>
      rw [hx] at h
      cases h
    | infinite n =>
      rw [hx] at h
      exact absurd h.2 (not_le.mpr hq)
    | finite n m e => exact ⟨n, m, e, rfl⟩

end Limit

section Operations

/-- Division rounds the quotient only once, so that its result is nearest to it. -/
theorem isNearest_div (s₁ s₂ : Sign) {m₁ m₂ : Nat} (e₁ e₂ : ℤ) (hm₁ : 0 < m₁) (hm₂ : 0 < m₂) :
    (Reading.ofPacked (div Format.binary64 (.finite s₁ m₁ e₁ hm₁) (.finite s₂ m₂ e₂ hm₂))).IsNearest
      (isNegative (s₁ / s₂)) (m₁ * 2 ^ e₁ / (m₂ * 2 ^ e₂)) := by
  obtain ⟨t, ht⟩ : ∃ t, min (e₁ - e₂)
      (max (totalExponent m₁ e₁ - totalExponent m₂ e₂ - 53) leastExponent) = t := ⟨_, rfl⟩
  obtain ⟨k, hk⟩ : ∃ k : Nat, (e₁ - e₂ - t).toNat = k := ⟨_, rfl⟩
  have hdiv : div Format.binary64 (.finite s₁ m₁ e₁ hm₁) (.finite s₂ m₂ e₂ hm₂) =
      roundWithAccuracy Format.binary64 (s₁ / s₂) ((m₁ <<< k) / m₂) t
        (accuracyOfFraction ((m₁ <<< k) % m₂) m₂) := by
    rw [← hk, ← ht]
    rfl
  have htk : t + k = e₁ - e₂ := by omega
  rw [hdiv]
  refine isNearest_roundWithAccuracy _ ?_ ?_
  · by_cases hleast : t ≤ leastExponent
    · exact .inr hleast
    · left
      -- The quotient has a bit less than the difference of the bits of both, at worst.
      rw [totalExponent, totalExponent] at ht
      have hbits : 52 + (m₂.log2 + 1) ≤ m₁.log2 + k := by omega
      rw [Nat.le_div_iff_mul_le hm₂, Nat.shiftLeft_eq]
      calc 2 ^ 52 * m₂ ≤ 2 ^ 52 * 2 ^ (m₂.log2 + 1) := Nat.mul_le_mul_left _ Nat.lt_log2_self.le
        _ = 2 ^ (52 + (m₂.log2 + 1)) := (Nat.pow_add ..).symm
        _ ≤ 2 ^ (m₁.log2 + k) := Nat.pow_le_pow_right two_pos hbits
        _ = 2 ^ m₁.log2 * 2 ^ k := Nat.pow_add ..
        _ ≤ m₁ * 2 ^ k := Nat.mul_le_mul_right _ (Nat.log2_self_le hm₁.ne')
  · have hquotient : (m₁ : ℚ) * 2 ^ e₁ / (m₂ * 2 ^ e₂) / 2 ^ t = (m₁ <<< k : Nat) / m₂ := by
      have hpow : (2 : ℚ) ^ e₁ = 2 ^ t * 2 ^ k * 2 ^ e₂ := by
        rw [← zpow_natCast, ← zpow_add₀ two_ne_zero, ← zpow_add₀ two_ne_zero, htk, sub_add_cancel]
      have ht0 : (2 : ℚ) ^ t ≠ 0 := zpow_ne_zero t two_ne_zero
      have he0 : (2 : ℚ) ^ e₂ ≠ 0 := zpow_ne_zero e₂ two_ne_zero
      rw [Nat.shiftLeft_eq, hpow]
      push_cast
      field_simp
    rw [hquotient]
    exact describes_div _ hm₂

/-- Zero is near enough to what is at most half the smallest double. -/
theorem isNearest_zero {q : ℚ} (h : 0 ≤ q) (hsmall : q ≤ 2 ^ (leastExponent - 1)) :
    (Reading.ofPacked (.zero .positive)).IsNearest false q := by
  have hunit : (0 : ℚ) < 2 ^ leastExponent := zpow_pos two_pos _
  have hhalf : 2 * (q / 2 ^ leastExponent) ≤ 1 := by
    rw [zpow_sub_one₀ two_ne_zero, ← div_eq_mul_inv, le_div_iff₀ two_pos] at hsmall
    rw [← mul_div_assoc, div_le_one hunit, mul_comm]
    exact hsmall
  have hpos : 0 ≤ q / 2 ^ leastExponent := div_nonneg h hunit.le
  refine ⟨rfl, contains_of_roundsTo ?_ hpos nofun⟩
  rw [RoundsTo, if_pos rfl, Nat.cast_zero]
  constructor <;> linarith

/-- A whole number that a double can hold is converted without loss. -/
theorem unpack_toFloat {m : Nat} (hm : 0 < m) (hbits : m < 2 ^ 53) :
    ∃ (n : Nat) (k : ℤ), 0 < n ∧ (n * 2 ^ k : ℚ) = m ∧ m.toUInt64.toFloat.toModel.unpack = unpacked .positive n k := by
  obtain ⟨k, hk⟩ : ∃ k : Nat, (0 - max (totalExponent m 0 - 53) leastExponent).toNat = k := ⟨_, rfl⟩
  have hlog : m.log2 < 53 := log2_lt_of_lt hbits
  rw [totalExponent, leastExponent] at hk
  have hcanonical : IsCanonical (m <<< k) (0 - k) := by
    rw [Nat.shiftLeft_eq]
    refine ⟨?_, by rw [leastExponent]; omega, .inl ?_⟩
    · calc m * 2 ^ k < 2 ^ (m.log2 + 1) * 2 ^ k :=
          Nat.mul_lt_mul_of_pos_right Nat.lt_log2_self (Nat.two_pow_pos k)
        _ = 2 ^ (m.log2 + 1 + k) := (Nat.pow_add ..).symm
        _ = 2 ^ 53 := by congr 1; omega
    · calc 2 ^ 52 = 2 ^ (m.log2 + k) := by congr 1; omega
        _ = 2 ^ m.log2 * 2 ^ k := Nat.pow_add ..
        _ ≤ m * 2 ^ k := Nat.mul_le_mul_right _ (Nat.log2_self_le hm.ne')
  have hpos : 0 < m <<< k := by
    rw [Nat.shiftLeft_eq]
    exact Nat.mul_pos hm (Nat.two_pow_pos k)
  have hround : UnpackedFloat.ofNat Format.binary64 m = unpacked .positive (m <<< k) (0 - k) := by
    have hcompare : compare (m : ℤ) 0 = .gt := Int.compare_eq_gt.mpr (Int.natCast_pos.mpr hm)
    have hofNat : UnpackedFloat.ofNat Format.binary64 m =
        UnpackedFloat.round Format.binary64 .positive m 0 := by
      rw [UnpackedFloat.ofNat, UnpackedFloat.ofInt, UnpackedFloat.normalize, hcompare]
      rfl
    rw [hofNat, ← roundWithAccuracy_of_isCanonical hcanonical, ← hk]
    rfl
  have hmodel : m.toUInt64.toFloat = .ofModel (.pack (UnpackedFloat.ofNat Format.binary64 m)) := by
    have htoNat : m.toUInt64.toNat = m := Nat.mod_eq_of_lt (hbits.trans (by decide))
    change Float.ofModel (.pack (UnpackedFloat.ofNat Format.binary64 m.toUInt64.toNat)) = _
    rw [htoNat]
  refine ⟨m <<< k, 0 - k, hpos, ?_, eq_unpacked ?_⟩
  · rw [Nat.shiftLeft_eq, zero_sub, zpow_neg, zpow_natCast]
    push_cast
    exact mul_inv_cancel_right₀ (pow_ne_zero k two_ne_zero) _
  · rw [← Reading.of_eq, hmodel, hround, Reading.of_pack, ofPacked_unpacked hcanonical, if_pos]
    rw [excessExponent]
    omega

def Reading.isPowerOfTen (i : Nat) : Reading → Bool
  | .finite false m e => m * 2 ^ e.toNat == 10 ^ i * 2 ^ (-e).toNat
  | _ => false

/-- The powers of ten that are kept in a table are exact. -/
theorem isPowerOfTen_exactlyRepresentable :
    ∀ i, ∀ hi : i < Float.exactlyRepresentablePowersOfTen.size,
      (Reading.of Float.exactlyRepresentablePowersOfTen[i]).isPowerOfTen i = true := by
  decide +kernel

/-- The powers of ten that a double can hold are what they are said to be. -/
theorem unpack_powerOfTen {i : Nat} (hi : i < Float.exactlyRepresentablePowersOfTen.size) :
    ∃ (n : Nat) (k : ℤ), 0 < n ∧ (n * 2 ^ k : ℚ) = 10 ^ i ∧
      Float.exactlyRepresentablePowersOfTen[i].toModel.unpack = unpacked .positive n k := by
  have hpower : (Reading.of Float.exactlyRepresentablePowersOfTen[i]).isPowerOfTen i = true :=
    isPowerOfTen_exactlyRepresentable i hi
  cases hread : Reading.of Float.exactlyRepresentablePowersOfTen[i] with
  | nan =>
    rw [hread] at hpower
    cases hpower
  | infinite negative =>
    rw [hread] at hpower
    cases hpower
  | finite negative n k =>
    rw [hread] at hpower
    cases negative with
    | true => cases hpower
    | false =>
      have hvalue := congrArg (Nat.cast (R := ℚ)) (beq_iff_eq.mp hpower)
      push_cast at hvalue
      have hscale : (2 : ℚ) ^ (-k).toNat ≠ 0 := pow_ne_zero _ two_ne_zero
      rw [pow_toNat two_ne_zero, ← mul_assoc, mul_left_inj' hscale] at hvalue
      refine ⟨n, k, Nat.pos_of_ne_zero ?_, hvalue, eq_unpacked ((Reading.of_eq _).symm.trans hread)⟩
      rintro rfl
      rw [Nat.cast_zero, zero_mul] at hvalue
      exact absurd hvalue.symm (by positivity)

end Operations

section Numeral

variable {m places : Nat}

/-- A few digits with a few places are divided by a power of ten, both of which doubles can hold. -/
theorem isNearest_div_powerOfTen (hm : m < 2 ^ 53)
    (hplaces : places < Float.exactlyRepresentablePowersOfTen.size) :
    (Reading.of (m.toUInt64.toFloat / Float.exactlyRepresentablePowersOfTen[places])).IsNearest false
      (m / 10 ^ places) := by
  obtain ⟨n₂, k₂, hn₂, hvalue₂, hunpack₂⟩ := unpack_powerOfTen hplaces
  have hdiv : m.toUInt64.toFloat / Float.exactlyRepresentablePowersOfTen[places] =
      .ofModel (.pack (div Format.binary64 m.toUInt64.toFloat.toModel.unpack
        Float.exactlyRepresentablePowersOfTen[places].toModel.unpack)) := rfl
  rw [hdiv, Reading.of_pack, hunpack₂, unpacked_of_pos hn₂]
  rcases Nat.eq_zero_or_pos m with rfl | hpos
  · rw [Nat.cast_zero, zero_div]
    exact isNearest_zero le_rfl (zpow_nonneg two_pos.le _)
  · obtain ⟨n₁, k₁, hn₁, hvalue₁, hunpack₁⟩ := unpack_toFloat hpos hm
    rw [hunpack₁, unpacked_of_pos hn₁, ← hvalue₁, ← hvalue₂]
    exact isNearest_div .positive .positive k₁ k₂ hn₁ hn₂

/-- Digits without places are rounded as they are, but for bits that make sure there are enough. -/
theorem isNearest_mul (hm : 0 < m) :
    (Reading.ofPacked (roundWithAccuracy Format.binary64 .positive (m <<< 53 * 10 ^ 0) (-53 + 0)
      .exact)).IsNearest false (m / 10 ^ 0) := by
  have hscaled : (m : ℚ) / (10 : ℚ) ^ 0 / (2 : ℚ) ^ (-53 + 0 : ℤ) = ((m <<< 53 * 10 ^ 0 : Nat) : ℚ) := by
    rw [Nat.shiftLeft_eq, add_zero, zpow_neg, div_inv_eq_mul, pow_zero, div_one, pow_zero, mul_one]
    push_cast
    rfl
  refine isNearest_roundWithAccuracy .positive (.inl ?_) ?_
  · rw [Nat.shiftLeft_eq]
    omega
  · rw [hscaled]
    exact describes_exact _

/-- Zero is taken for what has far more places than digits. -/
theorem div_le_of_places (h : 2 ^ 11 + m.log2 < places) :
    (m / 10 ^ places : ℚ) ≤ 2 ^ (leastExponent - 1) := by
  have hm : (m : ℚ) ≤ 2 ^ (m.log2 + 1) := by exact_mod_cast Nat.lt_log2_self.le
  have hten : (2 : ℚ) ^ places ≤ 10 ^ places := pow_le_pow_left₀ two_pos.le (by norm_num) places
  calc (m / 10 ^ places : ℚ) ≤ 2 ^ (m.log2 + 1) / 2 ^ places :=
        div_le_div₀ (by positivity) hm (by positivity) hten
    _ = 2 ^ ((m.log2 + 1 : Nat) - (places : ℤ)) := by
        rw [zpow_sub₀ two_ne_zero, zpow_natCast, zpow_natCast]
    _ ≤ 2 ^ (leastExponent - 1) := by
        refine zpow_le_zpow_right₀ one_le_two ?_
        rw [leastExponent]
        omega

/-- A decimal is read as the double nearest to it, however many digits it has. -/
theorem isNearest_ofScientific (m places : Nat) :
    (Reading.of (Float.ofScientific m true places)).IsNearest false (m / 10 ^ places) := by
  rw [Float.ofScientific]
  by_cases hfew : m < 2 ^ 53 ∧ places ≤ 22
  · rw [dif_pos hfew]
    exact isNearest_div_powerOfTen hfew.1 (Nat.lt_of_le_of_lt hfew.2 (by decide))
  · rw [dif_neg hfew]
    change (Reading.of (.ofModel (.pack
      (UnpackedFloat.ofScientific Format.binary64 m (Int.negOfNat places))))).IsNearest _ _
    have hneg : Int.negOfNat places = -(places : ℤ) := Int.negOfNat_eq
    have hpow : (2 : ℤ) ^ Format.binary64.exponentBits = 2048 := rfl
    rw [Reading.of_pack, hneg, UnpackedFloat.ofScientific, hpow]
    rcases Nat.eq_zero_or_pos m with rfl | hm
    · rw [dif_pos rfl, Nat.cast_zero, zero_div]
      exact isNearest_zero le_rfl (zpow_nonneg two_pos.le _)
    · rw [dif_neg hm.ne', if_neg (by omega)]
      by_cases hmany : -(places : ℤ) < -(2048 + m.log2)
      · rw [if_pos hmany]
        refine isNearest_zero (by positivity) (div_le_of_places ?_)
        omega
      · rw [if_neg hmany]
        by_cases hnone : 0 ≤ -(places : ℤ)
        · rw [if_pos hnone]
          obtain rfl : places = 0 := by omega
          exact isNearest_mul hm
        · rw [if_neg hnone]
          have hdiv := isNearest_div .positive .positive 0 0 hm
            (Nat.pow_pos (n := (-(-(places : ℤ))).toNat) (show 0 < 10 by decide))
          have htoNat : (-(-(places : ℤ))).toNat = places := by omega
          have hvalue : (m * 2 ^ (0 : ℤ) / ((10 ^ (-(-(places : ℤ))).toNat : Nat) * 2 ^ (0 : ℤ)) : ℚ) =
              m / 10 ^ places := by
            rw [htoNat, zpow_zero, mul_one, mul_one, Nat.cast_pow, Nat.cast_ofNat]
          rw [hvalue] at hdiv
          exact hdiv

theorem isNearest_neg {r : Reading} {negative : Bool} {q : ℚ} (h : r.IsNearest negative q) :
    r.neg.IsNearest (!negative) q := by
  cases r with
  | nan => cases h
  | infinite n => exact ⟨congrArg (!·) h.1, h.2⟩
  | finite n m e => exact ⟨congrArg (!·) h.1, h.2⟩

/-- The digits of both parts count as one natural, which the places scale down. -/
theorem isNearest_ofNumeral (negative : Bool) (whole fraction : List Char) :
    (Reading.of (ofNumeral negative whole fraction)).IsNearest negative
      (Nat.ofDigitChars 10 (whole ++ fraction) 0 / 10 ^ fraction.length) := by
  have h := isNearest_ofScientific (Nat.ofDigitChars 10 (whole ++ fraction) 0) fraction.length
  cases negative with
  | false => exact h
  | true =>
    change (Reading.of (-Float.ofScientific _ true fraction.length)).IsNearest _ _
    rw [Reading.of_neg]
    exact isNearest_neg h

def IsSignedNumeral (negative : Bool) (s : List Char) (q : ℚ) : Prop :=
  ∃ t, IsNumeral t q ∧ s = if negative then '-' :: t else t

/-- A numeral is split at its point. -/
theorem splitNumeral?_of_isNumeral {s : List Char} {q : ℚ} (h : IsNumeral s q) :
    ∃ whole fraction, splitNumeral? s = some (whole, fraction) ∧
      q = Nat.ofDigitChars 10 (whole ++ fraction) 0 / 10 ^ fraction.length := by
  cases h with
  | whole nonempty digits =>
    refine ⟨s, [], ?_, by simp⟩
    rw [splitNumeral?, List.takeWhile_eq_self_iff.mpr digits, List.dropWhile_eq_nil_iff.mpr digits]
    exact if_neg (by simpa using nonempty)
  | @pointed s t nonempty more digits =>
    rw [List.forall_mem_append] at digits
    refine ⟨s, t, ?_, rfl⟩
    have hwhole : (s ++ '.' :: t).takeWhile (·.isDigit) = s := by
      rw [List.takeWhile_append_of_pos digits.1, List.takeWhile_cons_of_neg (by decide), List.append_nil]
    have hrest : (s ++ '.' :: t).dropWhile (·.isDigit) = '.' :: t := by
      rw [List.dropWhile_append_of_pos digits.1, List.dropWhile_cons_of_neg (by decide)]
    rw [splitNumeral?, hwhole, hrest]
    have hall : t.all (·.isDigit) = true := List.all_eq_true.mpr digits.2
    simp [hall, nonempty]

theorem ne_minus_of_isNumeral {s : List Char} {q : ℚ} (h : IsNumeral s q) :
    ∀ rest, s ≠ '-' :: rest := by
  rintro rest rfl
  obtain ⟨whole, fraction, hsplit, -⟩ := splitNumeral?_of_isNumeral h
  rw [splitNumeral?] at hsplit
  cases hsplit

/-- Every numeral is parsed, and the double is nearest to the number that it stands for. -/
theorem exists_parse? {negative : Bool} {s : List Char} {q : ℚ} (h : IsSignedNumeral negative s q) :
    ∃ x, parse? s = some x ∧ (Reading.of x).IsNearest negative q := by
  obtain ⟨t, ht, rfl⟩ := h
  obtain ⟨whole, fraction, hsplit, rfl⟩ := splitNumeral?_of_isNumeral ht
  refine ⟨ofNumeral negative whole fraction, ?_, isNearest_ofNumeral negative whole fraction⟩
  cases negative with
  | false =>
    rw [if_neg nofun, parse?, hsplit]
    · rfl
    · exact ne_minus_of_isNumeral ht
  | true =>
    rw [if_pos rfl, parse?, hsplit]
    rfl

end Numeral

end ComputedField.Decimal
