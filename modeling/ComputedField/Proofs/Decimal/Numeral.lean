import ComputedField.Proofs.Decimal.Double
import ComputedField.Decimal.Style
import Mathlib.Algebra.Field.Rat
import Mathlib.Algebra.GroupWithZero.Basic

/-!
# Numerals

What a run of digits stands for, and that decimals and doubles are written by digits that stand for
them.
-/

namespace ComputedField.Decimal

def Scaled.value (d : Scaled) : ℚ := d.digits * 10 ^ d.exponent

/-- The characters are digits, perhaps with a point and more digits behind it, and stand for the
number. -/
inductive IsNumeral : List Char → ℚ → Prop where
  | whole {s : List Char} (nonempty : s ≠ []) (digits : ∀ c ∈ s, c.isDigit = true) :
      IsNumeral s (Nat.ofDigitChars 10 s 0)
  | pointed {s t : List Char} (nonempty : s ≠ []) (more : t ≠ [])
      (digits : ∀ c ∈ s ++ t, c.isDigit = true) :
      IsNumeral (s ++ '.' :: t) (Nat.ofDigitChars 10 (s ++ t) 0 / 10 ^ t.length)

theorem IsNumeral.exists_digit {s : List Char} {q : ℚ} (hq : IsNumeral s q) :
    ∃ c u, s = c :: u ∧ c.isDigit = true := by
  cases hq with
  | whole nonempty digits =>
    obtain ⟨c, u, rfl⟩ := List.exists_cons_of_ne_nil nonempty
    exact ⟨c, u, rfl, digits c List.mem_cons_self⟩
  | pointed nonempty more digits =>
    obtain ⟨c, u, rfl⟩ := List.exists_cons_of_ne_nil nonempty
    exact ⟨c, _, rfl, digits c List.mem_cons_self⟩

section Positional

variable {s : List Char}

theorem isDigit_zeros_append (digits : ∀ c ∈ s, c.isDigit = true) (n : Nat) :
    ∀ c ∈ List.replicate n '0' ++ s, c.isDigit = true := by
  intro c hc
  rcases List.mem_append.mp hc with hc | hc
  · rw [List.eq_of_mem_replicate hc]
    rfl
  · exact digits c hc

/-- Zeros behind the digits scale the number up. -/
theorem isNumeral_zeros (nonempty : s ≠ []) (digits : ∀ c ∈ s, c.isDigit = true) (n : Nat) :
    IsNumeral (s ++ List.replicate n '0') (Nat.ofDigitChars 10 s 0 * 10 ^ n) := by
  have hv : Nat.ofDigitChars 10 (s ++ List.replicate n '0') 0 = Nat.ofDigitChars 10 s 0 * 10 ^ n := by
    rw [Nat.ofDigitChars_append, Nat.ofDigitChars_replicate_zero, Nat.mul_comm]
  have h := IsNumeral.whole (s := s ++ List.replicate n '0') (by simp [nonempty]) ?_
  · rw [hv] at h
    push_cast at h
    exact h
  · intro c hc
    exact isDigit_zeros_append digits n c (List.mem_append.mpr (List.mem_append.mp hc).symm)

/-- A point within the digits scales the number down by the places behind it. -/
theorem isNumeral_split (digits : ∀ c ∈ s, c.isDigit = true) {places : Nat}
    (hlt : places < s.length) (hpos : 0 < places) :
    IsNumeral (s.take (s.length - places) ++ '.' :: s.drop (s.length - places))
      (Nat.ofDigitChars 10 s 0 / 10 ^ places) := by
  have hlen : (s.drop (s.length - places)).length = places := by
    rw [List.length_drop]
    omega
  have h := IsNumeral.pointed (s := s.take (s.length - places)) (t := s.drop (s.length - places))
    ?_ ?_ ?_
  · rw [List.take_append_drop, hlen] at h
    exact h
  · intro he
    have := congrArg List.length he
    rw [List.length_take, List.length_nil] at this
    omega
  · intro he
    rw [he, List.length_nil] at hlen
    omega
  · rw [List.take_append_drop]
    exact digits

/-- Where the point is in front of all digits, zeros fill the places up. -/
theorem isNumeral_fraction (nonempty : s ≠ []) (digits : ∀ c ∈ s, c.isDigit = true) {places : Nat}
    (hle : s.length ≤ places) :
    IsNumeral ('0' :: '.' :: (List.replicate (places - s.length) '0' ++ s))
      (Nat.ofDigitChars 10 s 0 / 10 ^ places) := by
  have hlen : (List.replicate (places - s.length) '0' ++ s).length = places := by
    rw [List.length_append, List.length_replicate]
    omega
  have hv : Nat.ofDigitChars 10 (['0'] ++ (List.replicate (places - s.length) '0' ++ s)) 0 =
      Nat.ofDigitChars 10 s 0 := by
    simp [Nat.ofDigitChars_append, Nat.ofDigitChars_cons]
  have h := IsNumeral.pointed (s := ['0']) (t := List.replicate (places - s.length) '0' ++ s)
    (by simp) (by simp [nonempty]) ?_
  · rw [hlen, hv] at h
    exact h
  · intro c hc
    rcases List.mem_cons.mp hc with rfl | hc
    · rfl
    · exact isDigit_zeros_append digits _ c hc

/-- A decimal is written by a numeral that stands for it. -/
theorem isNumeral_positional (d : Scaled) : IsNumeral (positional d) d.value := by
  have nonempty : Nat.toDigits 10 d.digits ≠ [] := Nat.toDigits_ne_nil
  have digits : ∀ c ∈ Nat.toDigits 10 d.digits, c.isDigit = true := fun _ =>
    Nat.isDigit_of_mem_toDigits (by decide) (by decide)
  have hv : Nat.ofDigitChars 10 (Nat.toDigits 10 d.digits) 0 = d.digits :=
    Nat.ofDigitChars_ten_toDigits
  unfold positional Scaled.value
  dsimp only
  cases d.exponent with
  | ofNat k =>
    have h := isNumeral_zeros nonempty digits k
    rw [hv] at h
    have hk : (0 : Int) ≤ Int.ofNat k := Int.natCast_nonneg k
    rw [if_pos hk, Int.ofNat_eq_natCast, zpow_natCast]
    exact h
  | negSucc k =>
    rw [if_neg (by omega), zpow_negSucc, ← div_eq_mul_inv]
    split
    · rename_i hlt
      have h := isNumeral_split digits hlt (Nat.succ_pos k)
      rw [hv] at h
      exact h
    · rename_i hlt
      have h := isNumeral_fraction nonempty digits (Nat.le_of_not_lt hlt)
      rw [hv] at h
      exact h

end Positional

/-- The number as which a double is written: its shortest decimal. -/
def Reading.written : Reading → ℚ
  | .finite negative mantissa exponent =>
    if mantissa = 0 then 0
    else if negative then -(shortest mantissa exponent).value
    else (shortest mantissa exponent).value
  | _ => 0

/-- A double is written without an exponent, with the digits of its shortest decimal. -/
theorem toList_format_plainStyle {x : Float} {negative : Bool} {mantissa : Nat} {exponent : Int}
    (hx : Reading.of x = .finite negative mantissa exponent) (hm : mantissa ≠ 0) :
    (plainStyle.format x).toList =
      if negative then '-' :: positional (shortest mantissa exponent)
      else positional (shortest mantissa exponent) := by
  cases mantissa with
  | zero => exact absurd rfl hm
  | succ m =>
    unfold Style.format
    rw [hx]
    cases negative with
    | false => exact String.toList_ofList
    | true =>
      change ("-" ++ String.ofList (positional (shortest (m + 1) exponent))).toList = _
      simp

end ComputedField.Decimal
