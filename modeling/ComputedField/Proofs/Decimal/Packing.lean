import ComputedField.Proofs.Decimal.Rounding

/-!
# Doubles from mantissas and exponents

The bits into which a mantissa and an exponent are packed are read as the same mantissa and exponent, or as
an infinity where the exponent is too great for a double.
-/

namespace ComputedField.Decimal

open Float.Model UnpackedFloat

section Pack

variable {m : Nat} {e : ℤ}

/-- The least exponent that is too great for a double. -/
def excessExponent : ℤ := 972

/-- The sign, the exponent and the fraction lie side by side in the bits. -/
theorem toNat_packComponents (s : Sign) (biased : BitVec 11) (fraction : BitVec 52) :
    (packComponents Format.binary64 s biased fraction).toNat =
      (s.toBitVec.toNat * 2048 + biased.toNat) * hiddenBit + fraction.toNat := by
  have happend {n k : Nat} (x : BitVec n) (y : BitVec k) :
      (x ++ y).toNat = x.toNat * 2 ^ k + y.toNat := by
    rw [BitVec.toNat_append, ← Nat.shiftLeft_add_eq_or_of_lt y.isLt, Nat.shiftLeft_eq]
  change (s.toBitVec ++ biased ++ fraction).toNat = _
  rw [happend, happend]
  rfl

/-- The components are read back. -/
theorem ofUnpacked_unpack_packComponents (s : Sign) (biased : BitVec 11) (fraction : BitVec 52) :
    Reading.ofUnpacked (unpack Format.binary64 (packComponents Format.binary64 s biased fraction)) =
      if biased.toNat = 2047 then
        if fraction.toNat = 0 then .infinite (isNegative s) else .nan
      else if biased.toNat = 0 then .finite (isNegative s) fraction.toNat leastExponent
      else .finite (isNegative s) (hiddenBit + fraction.toNat)
        (leastExponent + (biased.toNat - 1 : Nat)) := by
  have hbiased : biased.toNat < 2048 := biased.isLt
  have hfraction : fraction.toNat < hiddenBit := fraction.isLt
  have hsign : isNegative s = (s.toBitVec.toNat == 1) := by cases s <;> rfl
  have hfields :
      let bits := (s.toBitVec.toNat * 2048 + biased.toNat) * hiddenBit + fraction.toNat
      bits / hiddenBit % 2048 = biased.toNat ∧ bits % hiddenBit = fraction.toNat ∧
        bits / Nat.pow 2 63 = s.toBitVec.toNat := by
    have hhidden : hiddenBit = 4503599627370496 := rfl
    have hpow : Nat.pow 2 63 = 9223372036854775808 := rfl
    rw [hhidden] at hfraction
    rw [hhidden, hpow]
    omega
  rw [Reading.ofUnpacked_unpack, toNat_packComponents, hfields.1, hfields.2.1, hfields.2.2, hsign]

def Reading.ofPacked (u : UnpackedFloat) : Reading :=
  .ofUnpacked (unpack Format.binary64 (pack Format.binary64 u))

/-- What is packed is read back, or is infinite if its exponent is too great. -/
theorem ofPacked_unpacked (h : IsCanonical m e) (s : Sign) :
    Reading.ofPacked (unpacked s m e) =
      if e < excessExponent then .finite (isNegative s) m e else .infinite (isNegative s) := by
  have hbits := h.bits
  have hleast := h.least
  have hnormal := h.normal
  rw [leastExponent] at hleast hnormal
  rw [excessExponent]
  rcases Nat.eq_zero_or_pos m with rfl | hm
  · have he := hnormal.resolve_left (by decide)
    rw [if_pos (by omega), he]
    cases s <;> rfl
  · have hlog : m.log2 < 53 := log2_lt_of_lt hbits
    have hpack : pack Format.binary64 (.finite s m e hm) =
        if 2048 ≤ (e + 1023 + 52).toNat + 1 then packComponents Format.binary64 s (-1#11) 0#52
        else if m.log2 + 1 = 53 then
          packComponents Format.binary64 s (BitVec.ofNat 11 (e + 1023 + 52).toNat) (BitVec.ofNat 52 m)
        else packComponents Format.binary64 s 0#11 (BitVec.ofNat 52 m) := rfl
    rw [Reading.ofPacked, unpacked_of_pos hm, hpack]
    by_cases hexcess : e < 972
    · have hbiased : (e + 1023 + 52).toNat < 2 ^ 11 := by omega
      rw [if_neg (by omega), if_pos hexcess]
      by_cases hm52 : 2 ^ 52 ≤ m
      · have hlow : 52 ≤ m.log2 := (Nat.le_log2 hm.ne').mpr hm52
        have hfraction : m % 2 ^ 52 = m - 2 ^ 52 := by omega
        rw [if_pos (by omega), ofUnpacked_unpack_packComponents, BitVec.toNat_ofNat, BitVec.toNat_ofNat,
          Nat.mod_eq_of_lt hbiased, hfraction, if_neg (by omega), if_neg (by omega)]
        have hmantissa : hiddenBit + (m - 2 ^ 52) = m := Nat.add_sub_of_le hm52
        have hexponent : leastExponent + ((e + 1023 + 52).toNat - 1 : Nat) = e := by
          rw [leastExponent]
          omega
        rw [hmantissa, hexponent]
      · have hlow : m.log2 < 52 := (Nat.log2_lt hm.ne').mpr (by omega)
        have hfraction : (BitVec.ofNat 52 m).toNat = m := by
          rw [BitVec.toNat_ofNat, Nat.mod_eq_of_lt (by omega)]
        rw [if_neg (by omega), ofUnpacked_unpack_packComponents, hfraction, hnormal.resolve_left hm52]
        rfl
    · rw [if_pos (by omega), if_neg hexcess, ofUnpacked_unpack_packComponents]
      rfl

end Pack

section Read

variable {x : Float} {u : UnpackedFloat} {m : Nat} {e : ℤ}

theorem Reading.of_pack (u : UnpackedFloat) : Reading.of (.ofModel (.pack u)) = .ofPacked u :=
  Reading.of_eq _

/-- What is read of a double is in the form that no other mantissa and exponent of the same value have. -/
theorem isCanonical_of_reading {negative : Bool} (h : Reading.of x = .finite negative m e) :
    IsCanonical m e ∧ e < excessExponent := by
  have hhidden : hiddenBit = 2 ^ 52 := rfl
  have hfraction : x.toBits.toNat % hiddenBit < hiddenBit := Nat.mod_lt _ (by decide)
  have hbiased : x.toBits.toNat / hiddenBit % 2048 < 2048 := Nat.mod_lt _ (by decide)
  rw [Reading.of] at h
  split at h
  · split at h <;> cases h
  · split at h
    · cases h
      exact ⟨⟨by omega, Int.le_refl _, .inr rfl⟩, by decide⟩
    · cases h
      refine ⟨⟨by omega, by omega, .inl (by omega)⟩, ?_⟩
      rw [leastExponent, excessExponent]
      omega

/-- An unpacked double is what is read of it. -/
theorem eq_unpacked {s : Sign} (h : Reading.ofUnpacked u = .finite (isNegative s) m e) :
    u = unpacked s m e := by
  have hsign {s' : Sign} (hs : isNegative s' = isNegative s) : s' = s := by
    cases s <;> cases s' <;> first | rfl | cases hs
  cases u with
  | notANumber => cases h
  | infinity s' => cases h
  | zero s' =>
    obtain ⟨hs, rfl, -⟩ := Reading.finite.inj h
    rw [hsign hs]
    rfl
  | finite s' m' e' hm' =>
    obtain ⟨hs, rfl, rfl⟩ := Reading.finite.inj h
    rw [hsign hs, unpacked_of_pos]

def Reading.neg : Reading → Reading
  | .nan => .nan
  | .infinite negative => .infinite !negative
  | .finite negative m e => .finite (!negative) m e

theorem isNegative_neg (s : Sign) : isNegative (-s) = !isNegative s := by
  cases s <;> rfl

theorem Reading.of_neg (x : Float) : Reading.of (-x) = (Reading.of x).neg := by
  rw [Reading.of_eq (-x)]
  change ofPacked x.toModel.unpack.neg = _
  cases hx : x.toModel.unpack with
  | notANumber =>
    rw [Reading.of_eq, hx]
    rfl
  | infinity s =>
    rw [Reading.of_eq, hx]
    cases s <;> rfl
  | zero s =>
    rw [Reading.of_eq, hx]
    cases s <;> rfl
  | finite s m e hm =>
    have hof : Reading.of x = .finite (isNegative s) m e := by rw [Reading.of_eq, hx]; rfl
    obtain ⟨hcanonical, hexcess⟩ := isCanonical_of_reading hof
    have hneg : (UnpackedFloat.finite s m e hm).neg = unpacked (-s) m e := by
      rw [unpacked_of_pos hm]
      rfl
    rw [hof, hneg, ofPacked_unpacked hcanonical, if_pos hexcess, isNegative_neg]
    rfl

end Read

end ComputedField.Decimal
