import ComputedField.Proofs.Decimal.Shortest
import Mathlib.Tactic.FieldSimp

/-!
# Rounding to a double

A number is cut to as many bits as a double has, and two more bits tell how what was cut off compares with
half a step. By them it is rounded to a double among whose reals it is.
-/

namespace ComputedField.Decimal

open Float.Model UnpackedFloat

section Cut

variable {em : ExtendedMantissa} {q : ℚ}

/-- The mantissa and the round bit count the halves in a number; the sticky bit tells whether there is a
rest. -/
def Describes (em : ExtendedMantissa) (q : ℚ) : Prop :=
  if em.stickyBit then
    (2 * em.mantissa + em.roundBit.toNat : Nat) < 2 * q ∧
      2 * q < (2 * em.mantissa + em.roundBit.toNat + 1 : Nat)
  else 2 * q = (2 * em.mantissa + em.roundBit.toNat : Nat)

/-- What is cut off makes the mantissa smaller only. -/
theorem Describes.mantissa_le (h : Describes em q) : em.mantissa ≤ q := by
  have hhalves : ((2 * em.mantissa + em.roundBit.toNat : Nat) : ℚ) ≤ 2 * q := by
    rw [Describes] at h
    split at h
    · exact h.1.le
    · exact h.ge
  push_cast at hhalves
  have hbit : (0 : ℚ) ≤ em.roundBit.toNat := Nat.cast_nonneg _
  linarith

/-- A bit that is shifted out becomes the round bit, and the round bit before it is part of the rest. -/
theorem Describes.shiftRightOne (h : Describes em q) : Describes em.shiftRightOne (q / 2) := by
  have hbits : 2 * (em.mantissa / 2) + (em.mantissa % 2 != 0).toNat = em.mantissa := by
    have hsplit := Nat.div_add_mod em.mantissa 2
    rcases Nat.mod_two_eq_zero_or_one em.mantissa with hm | hm
    · rw [hm] at hsplit ⊢
      exact hsplit
    · rw [hm] at hsplit ⊢
      exact hsplit
  have hhalf : 2 * (q / 2) = q := by ring
  rw [Describes, ExtendedMantissa.shiftRightOne]
  rw [Describes] at h
  dsimp only
  rw [hbits, hhalf]
  cases hr : em.roundBit with
  | false =>
    rw [hr, Bool.toNat_false] at h
    rw [Bool.false_or]
    split at h
    · rename_i hs
      rw [if_pos hs]
      push_cast at h ⊢
      constructor <;> linarith
    · rename_i hs
      rw [if_neg hs]
      push_cast at h
      linarith
  | true =>
    rw [hr, Bool.toNat_true] at h
    rw [Bool.true_or, if_pos rfl]
    split at h
    · push_cast at h ⊢
      constructor <;> linarith
    · push_cast at h ⊢
      constructor <;> linarith

/-- Any number of bits may be shifted out, and the sticky bit remembers them. -/
theorem Describes.shiftRight (h : Describes em q) (n : Nat) : Describes (em >>> n) (q / 2 ^ n) := by
  induction n with
  | zero =>
    rw [pow_zero, div_one]
    exact h
  | succ n ih =>
    rw [pow_succ, ← div_div]
    exact ih.shiftRightOne

theorem mantissa_shiftRight (em : ExtendedMantissa) (n : Nat) :
    (em >>> n).mantissa = em.mantissa / 2 ^ n := by
  induction n with
  | zero => exact (Nat.div_one _).symm
  | succ n ih =>
    rw [Nat.pow_succ, ← Nat.div_div_eq_div_mul, ← ih]
    rfl

theorem mantissa_ofMantissaAndAccuracy (m : Nat) (accuracy : Accuracy) :
    (ExtendedMantissa.ofMantissaAndAccuracy m accuracy).mantissa = m := by
  cases accuracy with
  | exact => rfl
  | inexact order => cases order <;> rfl

theorem describes_exact (m : Nat) : Describes (.ofMantissaAndAccuracy m .exact) m := by
  simp [Describes, ExtendedMantissa.ofMantissaAndAccuracy]

/-- The rest of a division tells where the quotient lies. -/
theorem describes_div (n : Nat) {d : Nat} (hd : 0 < d) :
    Describes (.ofMantissaAndAccuracy (n / d) (accuracyOfFraction (n % d) d)) (n / d) := by
  have hpos : (0 : ℚ) < d := Nat.cast_pos.mpr hd
  have hsplit : (n : ℚ) / d = (n / d : Nat) + (n % d : Nat) / d :=
    calc (n : ℚ) / d = (d * (n / d) + n % d : Nat) / d := by rw [Nat.div_add_mod]
      _ = (n / d : Nat) + (n % d : Nat) / d := by
        rw [Nat.cast_add, Nat.cast_mul, add_div, mul_div_cancel_left₀ _ hpos.ne']
  have hless : ((n % d : Nat) : ℚ) / d < 1 := (div_lt_one hpos).mpr (Nat.cast_lt.mpr (Nat.mod_lt n hd))
  rw [hsplit, accuracyOfFraction]
  generalize n / d = m
  generalize n % d = r at hless ⊢
  have hhalf : 2 * ((r : ℚ) / d) = (2 * r : Nat) / d := by
    rw [Nat.cast_mul, Nat.cast_ofNat, mul_div_assoc]
  split
  · rename_i hr
    simp [Describes, ExtendedMantissa.ofMantissaAndAccuracy, hr]
  · rename_i hr
    have hrest : (0 : ℚ) < r / d := div_pos (Nat.cast_pos.mpr (Nat.pos_of_ne_zero hr)) hpos
    rcases Nat.lt_trichotomy (2 * r) d with h | h | h
    · rw [Nat.compare_eq_lt.mpr h]
      rw [← Nat.cast_lt (α := ℚ), ← div_lt_one hpos, ← hhalf] at h
      rw [ExtendedMantissa.ofMantissaAndAccuracy, Describes, if_pos rfl, Bool.toNat_false]
      constructor <;> push_cast <;> linarith
    · rw [Nat.compare_eq_eq.mpr h]
      rw [← Nat.cast_inj (R := ℚ), ← div_eq_one_iff_eq hpos.ne', ← hhalf] at h
      rw [ExtendedMantissa.ofMantissaAndAccuracy, Describes, if_neg nofun, Bool.toNat_true]
      push_cast
      linarith
    · rw [Nat.compare_eq_gt.mpr h]
      rw [← Nat.cast_lt (α := ℚ), ← one_lt_div hpos, ← hhalf] at h
      rw [ExtendedMantissa.ofMantissaAndAccuracy, Describes, if_pos rfl, Bool.toNat_true]
      constructor <;> push_cast <;> linarith

theorem mantissa_le_roundedMantissa (em : ExtendedMantissa) : em.mantissa ≤ em.roundedMantissa := by
  obtain ⟨m, roundBit, stickyBit⟩ := em
  cases roundBit <;> cases stickyBit
  · exact Nat.le_refl m
  · exact Nat.le_refl m
  · exact Nat.le_add_right m (m % 2)
  · exact Nat.le_add_right m 1

theorem roundedMantissa_le (em : ExtendedMantissa) : em.roundedMantissa ≤ em.mantissa + 1 := by
  obtain ⟨m, roundBit, stickyBit⟩ := em
  cases roundBit <;> cases stickyBit
  · exact Nat.le_add_right m 1
  · exact Nat.le_add_right m 1
  · exact Nat.add_le_add_left (Nat.le_of_lt_succ (Nat.mod_lt m two_pos)) m
  · exact Nat.le_refl (m + 1)

/-- A number is half a step at most from what it is rounded to, and less if that is odd. -/
def RoundsTo (q : ℚ) (n : Nat) : Prop :=
  if n % 2 = 0 then 2 * n - 1 ≤ 2 * q ∧ 2 * q ≤ 2 * n + 1 else 2 * n - 1 < 2 * q ∧ 2 * q < 2 * n + 1

theorem roundsTo_of_lt {n : Nat} (hlow : 2 * n - 1 < 2 * q) (hhigh : 2 * q < 2 * n + 1) :
    RoundsTo q n := by
  rw [RoundsTo]
  split
  · exact ⟨hlow.le, hhigh.le⟩
  · exact ⟨hlow, hhigh⟩

/-- The round bit and the sticky bit are enough to round by. -/
theorem Describes.roundsTo (h : Describes em q) : RoundsTo q em.roundedMantissa := by
  obtain ⟨m, roundBit, stickyBit⟩ := em
  cases roundBit with
  | false =>
    cases stickyBit with
    | false =>
      rw [Describes, if_neg nofun, Bool.toNat_false] at h
      push_cast at h
      exact roundsTo_of_lt (n := m) (by linarith) (by linarith)
    | true =>
      rw [Describes, if_pos rfl, Bool.toNat_false] at h
      push_cast at h
      exact roundsTo_of_lt (n := m) (by linarith) (by linarith)
  | true =>
    cases stickyBit with
    | false =>
      -- In the middle between two numbers, the even one is taken.
      rw [Describes, if_neg nofun, Bool.toNat_true] at h
      push_cast at h
      change RoundsTo q (m + m % 2)
      rcases Nat.mod_two_eq_zero_or_one m with hm | hm
      · rw [hm, Nat.add_zero, RoundsTo, if_pos hm]
        constructor <;> linarith
      · rw [hm, RoundsTo, if_pos (by omega)]
        push_cast
        constructor <;> linarith
    | true =>
      rw [Describes, if_pos rfl, Bool.toNat_true] at h
      push_cast at h
      refine roundsTo_of_lt (n := m + 1) ?_ ?_ <;> push_cast <;> linarith

end Cut

section Canonical

variable {m n : Nat} {e : ℤ} {q : ℚ}

/-- A mantissa and an exponent of a double, if the exponent were not bounded above: all bits are used but by
those with the smallest exponent. -/
structure IsCanonical (m : Nat) (e : ℤ) : Prop where
  bits : m < 2 ^ 53
  least : leastExponent ≤ e
  normal : 2 ^ 52 ≤ m ∨ e = leastExponent

theorem log2_lt_of_lt (h : m < 2 ^ 53) : m.log2 < 53 := by
  rcases Nat.eq_zero_or_pos m with rfl | hm
  · decide
  · exact (Nat.log2_lt hm.ne').mpr h

theorem shiftToTargetExponent_eq {k : Nat} (accuracy : Accuracy)
    (h : (max (totalExponent m e - 53) leastExponent - e).toNat = k) :
    shiftToTargetExponent Format.binary64 m e accuracy =
      (ExtendedMantissa.ofMantissaAndAccuracy m accuracy >>> k, e + k) := by
  rw [← h]
  rfl

/-- What is in its form already is not shifted. -/
theorem shiftToTargetExponent_of_isCanonical (h : IsCanonical m e) (accuracy : Accuracy) :
    shiftToTargetExponent Format.binary64 m e accuracy = (.ofMantissaAndAccuracy m accuracy, e) := by
  have hlog := log2_lt_of_lt h.bits
  have hleast := h.least
  rw [shiftToTargetExponent_eq (k := 0) accuracy, Nat.cast_zero, add_zero]
  · rfl
  · rw [totalExponent]
    omega

/-- Just so many bits are shifted out that the rest are those of a double. -/
theorem isCanonical_div {k : Nat} (h : 2 ^ 52 ≤ m ∨ e ≤ leastExponent)
    (hk : (max (totalExponent m e - 53) leastExponent - e).toNat = k) :
    IsCanonical (m / 2 ^ k) (e + k) := by
  have hbits : 52 ≤ m.log2 ∨ e ≤ leastExponent := by
    refine h.imp_left fun hm => (Nat.le_log2 ?_).mpr hm
    rintro rfl
    exact absurd hm (by decide)
  rw [totalExponent] at hk
  constructor
  case bits =>
    rw [Nat.div_lt_iff_lt_mul (Nat.two_pow_pos k), ← Nat.pow_add]
    refine Nat.lt_of_lt_of_le Nat.lt_log2_self (Nat.pow_le_pow_right two_pos ?_)
    omega
  case least => omega
  case normal =>
    rw [or_iff_not_imp_right]
    intro hleast
    have hlog : 52 + k = m.log2 := by omega
    have hm : m ≠ 0 := by
      rintro rfl
      rw [Nat.log2_zero] at hlog
      omega
    rw [Nat.le_div_iff_mul_le (Nat.two_pow_pos k), ← Nat.pow_add, hlog]
    exact Nat.log2_self_le hm

/-- There are bits enough, or the exponent is so small that no more are needed. -/
theorem isCanonical_shiftToTargetExponent (h : 2 ^ 52 ≤ m ∨ e ≤ leastExponent) (accuracy : Accuracy)
    (hq : Describes (.ofMantissaAndAccuracy m accuracy) (q / 2 ^ e)) :
    IsCanonical (shiftToTargetExponent Format.binary64 m e accuracy).1.mantissa
        (shiftToTargetExponent Format.binary64 m e accuracy).2 ∧
      Describes (shiftToTargetExponent Format.binary64 m e accuracy).1
        (q / 2 ^ (shiftToTargetExponent Format.binary64 m e accuracy).2) := by
  obtain ⟨k, hk⟩ : ∃ k, (max (totalExponent m e - 53) leastExponent - e).toNat = k := ⟨_, rfl⟩
  rw [shiftToTargetExponent_eq accuracy hk]
  dsimp only
  constructor
  · rw [mantissa_shiftRight, mantissa_ofMantissaAndAccuracy]
    exact isCanonical_div h hk
  · rw [zpow_add₀ two_ne_zero, zpow_natCast, ← div_div]
    exact hq.shiftRight k

theorem Rounding.contains_mul {r : Rounding} {x : ℚ} : r.Contains (x * 2 ^ r.exponent) ↔
    if r.closed then r.low ≤ x ∧ x ≤ r.high else r.low < x ∧ x < r.high := by
  have hstep : (0 : ℚ) < 2 ^ r.exponent := zpow_pos two_pos _
  rw [Rounding.Contains, mul_le_mul_iff_left₀ hstep, mul_le_mul_iff_left₀ hstep,
    mul_lt_mul_iff_left₀ hstep, mul_lt_mul_iff_left₀ hstep]

/-- Of the reals that round to a mantissa, the least lies a quarter of a step below or half a step below,
unless there is none below. -/
theorem low_of (n : Nat) (e : ℤ) :
    n = 0 ∧ (Rounding.of n e).low = 0 ∨ ((Rounding.of n e).low : ℚ) = 4 * n - 2 ∨
      (n = 2 ^ 52 ∧ leastExponent < e) ∧ ((Rounding.of n e).low : ℚ) = 4 * n - 1 := by
  rw [Rounding.of]
  dsimp only
  split
  · rename_i hedge
    rw [Nat.cast_sub (by rw [hedge.1]; decide)]
    exact .inr (.inr ⟨hedge, by push_cast; ring⟩)
  · rcases Nat.eq_zero_or_pos n with rfl | hn
    · exact .inl ⟨rfl, rfl⟩
    · rw [Nat.cast_sub (by omega)]
      exact .inr (.inl (by push_cast; ring))

/-- What rounds to the mantissa of a double is among the reals that round to the double. -/
theorem contains_of_roundsTo (h : RoundsTo (q / 2 ^ e) n) (hq : 0 ≤ q / 2 ^ e)
    (hpower : n = 2 ^ 52 → leastExponent < e → 2 ^ 52 ≤ q / 2 ^ e + 1 / 4) :
    (Rounding.of n e).Contains q := by
  have hunit : q = 4 * (q / 2 ^ e) * 2 ^ (Rounding.of n e).exponent := by
    have hpos : (2 : ℚ) ^ e ≠ 0 := zpow_ne_zero e two_ne_zero
    change q = 4 * (q / 2 ^ e) * 2 ^ (e - 2)
    rw [zpow_sub₀ two_ne_zero]
    field_simp
    norm_num
  have hhigh : ((Rounding.of n e).high : ℚ) = 4 * n + 2 := by
    rw [Rounding.of]
    push_cast
    rfl
  rw [hunit, Rounding.contains_mul, hhigh]
  generalize q / 2 ^ e = x at *
  rw [RoundsTo] at h
  have hclosed : (Rounding.of n e).closed = true ↔ n % 2 = 0 := beq_iff_eq
  split at h
  · rename_i heven
    rw [if_pos (hclosed.mpr heven)]
    refine ⟨?_, by linarith⟩
    rcases low_of n e with ⟨-, hlow⟩ | hlow | ⟨hedge, hlow⟩
    · rw [hlow]
      push_cast
      linarith
    · rw [hlow]
      linarith
    · have hx := hpower hedge.1 hedge.2
      rw [hlow, hedge.1]
      push_cast
      linarith
  · rename_i hodd
    rw [if_neg (mt hclosed.mp hodd)]
    refine ⟨?_, by linarith⟩
    rcases low_of n e with ⟨rfl, -⟩ | hlow | ⟨⟨rfl, -⟩, -⟩
    · exact absurd rfl hodd
    · rw [hlow]
      linarith
    · exact absurd rfl hodd

def unpacked (s : Sign) (m : Nat) (e : ℤ) : UnpackedFloat :=
  if h : m = 0 then .zero s else .finite s m e (Nat.pos_of_ne_zero h)

theorem unpacked_of_pos {m : Nat} (hm : 0 < m) (s : Sign) (e : ℤ) : unpacked s m e = .finite s m e hm :=
  dif_neg hm.ne'

/-- After rounding, what has become too long is cut once more. -/
theorem roundWithAccuracy_eq (s : Sign) (m : Nat) (e : ℤ) (accuracy : Accuracy) :
    roundWithAccuracy Format.binary64 s m e accuracy =
      let first := shiftToTargetExponent Format.binary64 m e accuracy
      let second := shiftToTargetExponent Format.binary64 first.1.roundedMantissa first.2 .exact
      unpacked s second.1.mantissa second.2 := rfl

/-- Rounding takes a number to a double among whose reals it is, where there are bits enough. -/
theorem exists_roundWithAccuracy (s : Sign) {accuracy : Accuracy}
    (hbits : 2 ^ 52 ≤ m ∨ e ≤ leastExponent)
    (hq : Describes (.ofMantissaAndAccuracy m accuracy) (q / 2 ^ e)) :
    ∃ n k, IsCanonical n k ∧ (Rounding.of n k).Contains q ∧
      roundWithAccuracy Format.binary64 s m e accuracy = unpacked s n k := by
  obtain ⟨hcanonical, hfirst⟩ := isCanonical_shiftToTargetExponent hbits accuracy hq
  rw [roundWithAccuracy_eq]
  dsimp only
  generalize shiftToTargetExponent Format.binary64 m e accuracy = first at *
  obtain ⟨em, k⟩ := first
  dsimp only at *
  have hrounds := hfirst.roundsTo
  have hle := mantissa_le_roundedMantissa em
  have hlt := roundedMantissa_le em
  have hmantissa := hfirst.mantissa_le
  have hbelow := hcanonical.bits
  rcases Nat.lt_or_eq_of_le (Nat.le_trans hlt hbelow) with hn | hn
  · have hn' : IsCanonical em.roundedMantissa k :=
      ⟨hn, hcanonical.least, hcanonical.normal.imp_left (Nat.le_trans · hle)⟩
    refine ⟨_, _, hn', contains_of_roundsTo hrounds ?_ fun _ hk => ?_, ?_⟩
    · exact (Nat.cast_nonneg em.mantissa).trans hmantissa
    · have hnormal := Nat.cast_le (α := ℚ).mpr (hcanonical.normal.resolve_right hk.ne')
      push_cast at hnormal
      linarith
    · rw [shiftToTargetExponent_of_isCanonical hn', mantissa_ofMantissaAndAccuracy]
  · -- The mantissa has become a power of two and loses a bit that is zero.
    have hsecond : shiftToTargetExponent Format.binary64 em.roundedMantissa k .exact =
        (ExtendedMantissa.ofMantissaAndAccuracy em.roundedMantissa .exact >>> 1, k + (1 : Nat)) := by
      apply shiftToTargetExponent_eq
      have hleast := hcanonical.least
      rw [hn, totalExponent, Nat.log2_two_pow]
      omega
    have hhalf : q / 2 ^ (k + (1 : Nat)) = q / 2 ^ k / 2 := by
      rw [zpow_add₀ two_ne_zero, zpow_natCast, pow_one, div_div]
    rw [hn, RoundsTo, if_pos (by decide)] at hrounds
    push_cast at hrounds
    have hleast := hcanonical.least
    refine ⟨2 ^ 52, k + (1 : Nat), ⟨by decide, by omega, .inl (Nat.le_refl _)⟩, ?_, ?_⟩
    · refine contains_of_roundsTo ?_ ?_ fun _ _ => ?_
      · rw [hhalf]
        refine roundsTo_of_lt ?_ ?_ <;> push_cast <;> linarith
      · rw [hhalf]
        linarith
      · rw [hhalf]
        linarith
    · rw [hsecond, mantissa_shiftRight, mantissa_ofMantissaAndAccuracy, hn]
      rfl

/-- What is canonical is left alone. -/
theorem roundWithAccuracy_of_isCanonical (h : IsCanonical m e) (s : Sign) :
    roundWithAccuracy Format.binary64 s m e .exact = unpacked s m e := by
  have hrounded : (ExtendedMantissa.ofMantissaAndAccuracy m .exact).roundedMantissa = m := rfl
  rw [roundWithAccuracy_eq, shiftToTargetExponent_of_isCanonical h]
  dsimp only
  rw [hrounded, shiftToTargetExponent_of_isCanonical h, mantissa_ofMantissaAndAccuracy]

end Canonical

end ComputedField.Decimal
