import ComputedField.Decimal.Double

/-!
# What a double is

The reading of a double from its bits says the same as the unpacking on which the operations of
doubles are defined. Whether two doubles are equal does not depend on their order.
-/

namespace ComputedField.Decimal

open Float.Model UnpackedFloat

def isNegative : Sign → Bool
  | .positive => false
  | .negative => true

def Reading.ofUnpacked : UnpackedFloat → Reading
  | .notANumber => .nan
  | .infinity s => .infinite (isNegative s)
  | .zero s => .finite (isNegative s) 0 leastExponent
  | .finite s m e _ => .finite (isNegative s) m e

section Bits

variable (b : BitVec Format.binary64.numBits)

/-- The sign is the bit above all others. -/
theorem isNegative_unpackSign :
    isNegative (Sign.ofBitVec (unpackSign b)) = (b.toNat / Nat.pow 2 63 == 1) := by
  have hb : b.toNat < 2 ^ 64 := b.isLt
  have hs : (unpackSign b).toNat = b.toNat / Nat.pow 2 63 := by
    change b.toNat >>> 63 % 2 = b.toNat / 2 ^ 63
    rw [Nat.shiftRight_eq_div_pow]
    omega
  rw [← hs]
  generalize unpackSign b = s
  revert s
  decide

theorem toNat_unpackExponent : (unpackExponent b).toNat = b.toNat / hiddenBit % 2048 := by
  change b.toNat >>> 52 % 2048 = b.toNat / 2 ^ 52 % 2048
  rw [Nat.shiftRight_eq_div_pow]

theorem toNat_unpackMantissa : (unpackMantissa b).toNat = b.toNat % hiddenBit := by
  change b.toNat >>> 0 % 2 ^ 52 = b.toNat % 2 ^ 52
  rw [Nat.shiftRight_zero]

theorem toNat_one_append (m : BitVec 52) : (1#1 ++ m).toNat = hiddenBit + m.toNat := by
  rw [BitVec.toNat_append, ← Nat.shiftLeft_add_eq_or_of_lt m.isLt]
  rfl

theorem unpackExponent_eq_iff (e : BitVec 11) :
    unpackExponent b = e ↔ b.toNat / hiddenBit % 2048 = e.toNat := by
  rw [← toNat_unpackExponent, BitVec.toNat_inj]

theorem unpackMantissa_eq_zero_iff : unpackMantissa b = 0#_ ↔ b.toNat % hiddenBit = 0 := by
  rw [← toNat_unpackMantissa, ← BitVec.toNat_inj]
  rfl

/-- What the bits say: the greatest exponent is kept for infinities and for what is no number, and the
least one for numbers whose leading bit is not a one. -/
theorem Reading.ofUnpacked_unpack :
    ofUnpacked (UnpackedFloat.unpack Format.binary64 b) =
      if b.toNat / hiddenBit % 2048 = 2047 then
        if b.toNat % hiddenBit = 0 then .infinite (b.toNat / Nat.pow 2 63 == 1) else .nan
      else if b.toNat / hiddenBit % 2048 = 0 then
        .finite (b.toNat / Nat.pow 2 63 == 1) (b.toNat % hiddenBit) leastExponent
      else
        .finite (b.toNat / Nat.pow 2 63 == 1) (hiddenBit + b.toNat % hiddenBit)
          (leastExponent + (b.toNat / hiddenBit % 2048 - 1 : Nat)) := by
  have hinf : unpackExponent b = -1#_ ↔ b.toNat / hiddenBit % 2048 = 2047 :=
    unpackExponent_eq_iff b (-1#_)
  have hsub : unpackExponent b = 0#_ ↔ b.toNat / hiddenBit % 2048 = 0 :=
    unpackExponent_eq_iff b 0#_
  have hman := unpackMantissa_eq_zero_iff b
  unfold UnpackedFloat.unpack
  dsimp only
  by_cases he : b.toNat / hiddenBit % 2048 = 2047
  · rw [if_pos (hinf.mpr he), if_pos he]
    by_cases hm : b.toNat % hiddenBit = 0
    · rw [if_pos (hman.mpr hm), if_pos hm, ← isNegative_unpackSign]
      rfl
    · rw [if_neg (mt hman.mp hm), if_neg hm]
      rfl
  · rw [if_neg (mt hinf.mp he), if_neg he]
    by_cases hs : b.toNat / hiddenBit % 2048 = 0
    · rw [if_pos (hsub.mpr hs), if_pos hs, ← isNegative_unpackSign]
      by_cases hm : b.toNat % hiddenBit = 0
      · rw [dif_pos (hman.mpr hm), hm]
        rfl
      · rw [dif_neg (mt hman.mp hm)]
        change Reading.finite _ (unpackMantissa b).toNat ((unpackExponent b).toNat - _ + 1) = _
        rw [toNat_unpackMantissa, toNat_unpackExponent, hs]
        rfl
    · rw [if_neg (mt hsub.mp hs), if_neg hs, ← isNegative_unpackSign]
      change Reading.finite _ (1#1 ++ unpackMantissa b).toNat ((unpackExponent b).toNat - _) = _
      rw [toNat_one_append, toNat_unpackMantissa, toNat_unpackExponent]
      congr 1
      simp only [leastExponent, Format.exponentBias]
      omega

end Bits

variable (x : Float)

theorem Reading.of_eq : Reading.of x = .ofUnpacked x.toModel.unpack :=
  (Reading.ofUnpacked_unpack x.toBits.toBitVec).symm

/-- A double is finite if it is read as a mantissa and an exponent. -/
theorem isFinite_iff : x.isFinite = true ↔ ∃ n m e, Reading.of x = .finite n m e := by
  rw [Reading.of_eq]
  change x.toModel.unpack.isFinite = true ↔ _
  cases x.toModel.unpack with
  | notANumber => exact ⟨nofun, nofun⟩
  | infinity s => exact ⟨nofun, nofun⟩
  | zero s => exact ⟨fun _ => ⟨_, _, _, rfl⟩, fun _ => rfl⟩
  | finite s m e hm => exact ⟨fun _ => ⟨_, _, _, rfl⟩, fun _ => rfl⟩

/-- Both zeros are equal to zero, and nothing else is. -/
theorem beq_zero_iff : (x == 0.0) = true ↔ ∃ n e, Reading.of x = .finite n 0 e := by
  have hzero : (0.0 : Float).toModel.unpack = .zero .positive := rfl
  rw [Reading.of_eq]
  change x.toModel.unpack.beq (0.0 : Float).toModel.unpack = true ↔ _
  rw [hzero]
  cases x.toModel.unpack with
  | notANumber => exact ⟨nofun, nofun⟩
  | infinity s => cases s <;> exact ⟨nofun, nofun⟩
  | zero s => exact ⟨fun _ => ⟨_, _, rfl⟩, fun _ => rfl⟩
  | finite s m e hm =>
    constructor
    · intro h
      cases s <;> cases h
    · rintro ⟨n, k, hk⟩
      cases hk
      exact absurd hm (Nat.lt_irrefl 0)

/-- Compared the other way round, unpacked numbers have the other order. -/
theorem compare_swap (a b : UnpackedFloat) : (a.compare b).map Ordering.swap = b.compare a := by
  cases a with
  | notANumber => cases b <;> rfl
  | infinity s =>
    cases b with
    | infinity t => cases s <;> cases t <;> rfl
    | _ => cases s <;> rfl
  | zero s =>
    cases b with
    | infinity t | finite t => cases t <;> rfl
    | _ => rfl
  | finite s m e hm =>
    cases b with
    | notANumber | zero => cases s <;> rfl
    | infinity t => cases s <;> cases t <;> rfl
    | finite t n k hn =>
      have hswap : ((compare e k).then (compare m n)).swap = (compare k e).then (compare n m) := by
        rw [Ordering.swap_then, Int.compare_swap, Nat.compare_swap]
      cases s <;> cases t
      · exact congrArg (fun o => some o.swap) hswap
      · rfl
      · rfl
      · exact congrArg some hswap

theorem beq_comm (x y : Float) : (x == y) = (y == x) := by
  change (x.toModel.unpack.compare y.toModel.unpack == some .eq) =
    (y.toModel.unpack.compare x.toModel.unpack == some .eq)
  rw [← compare_swap x.toModel.unpack]
  cases x.toModel.unpack.compare y.toModel.unpack with
  | none => rfl
  | some o => cases o <;> rfl

end ComputedField.Decimal
