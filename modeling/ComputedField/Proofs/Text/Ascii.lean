/-!
# Letters and digits of ASCII

Where the letters and digits are among the characters, and that a letter in lower case is a small one.
-/

namespace ComputedField.Text

variable {c : Char}

theorem toNat_of_isUpper (h : c.isUpper = true) : 0x41 ≤ c.toNat ∧ c.toNat < 0x5B := by
  have hrange : 'A'.val ≤ c.val ∧ c.val ≤ 'Z'.val := of_decide_eq_true h
  exact ⟨UInt32.le_iff_toNat_le.mp hrange.1, Nat.lt_succ_of_le (UInt32.le_iff_toNat_le.mp hrange.2)⟩

theorem toNat_of_isLower (h : c.isLower = true) : 0x61 ≤ c.toNat ∧ c.toNat < 0x7B := by
  obtain ⟨hfirst, hlast⟩ := (Bool.and_eq_true _ _).mp h
  exact ⟨UInt32.le_iff_toNat_le.mp (of_decide_eq_true hfirst),
    Nat.lt_succ_of_le (UInt32.le_iff_toNat_le.mp (of_decide_eq_true hlast))⟩

theorem toNat_of_isDigit (h : c.isDigit = true) : 0x30 ≤ c.toNat ∧ c.toNat < 0x3A := by
  obtain ⟨hfirst, hlast⟩ := (Bool.and_eq_true _ _).mp h
  exact ⟨UInt32.le_iff_toNat_le.mp (of_decide_eq_true hfirst),
    Nat.lt_succ_of_le (UInt32.le_iff_toNat_le.mp (of_decide_eq_true hlast))⟩

theorem toNat_of_isAlpha (h : c.isAlpha = true) : 0x41 ≤ c.toNat ∧ c.toNat < 0x7B := by
  rcases (Bool.or_eq_true _ _).mp h with hupper | hlower
  · have := toNat_of_isUpper hupper
    omega
  · have := toNat_of_isLower hlower
    omega

theorem toNat_of_isAlphanum (h : c.isAlphanum = true) : c.toNat < 0x7B := by
  rcases (Bool.or_eq_true _ _).mp h with halpha | hdigit
  · exact (toNat_of_isAlpha halpha).2
  · have := toNat_of_isDigit hdigit
    omega

theorem isDigit_of_isAlpha (h : c.isAlpha = true) : c.isDigit = false := by
  rw [Bool.eq_false_iff]
  intro hdigit
  have := toNat_of_isAlpha h
  have := toNat_of_isDigit hdigit
  omega

theorem isUpper_of_isDigit (h : c.isDigit = true) : c.isUpper = false := by
  rw [Bool.eq_false_iff]
  intro hupper
  have := toNat_of_isDigit h
  have := toNat_of_isUpper hupper
  omega

theorem isUpper_of_small (h : 0x61 ≤ c.toNat) : c.isUpper = false := by
  rw [Bool.eq_false_iff]
  intro hupper
  have := toNat_of_isUpper hupper
  omega

theorem toLower_of_isUpper_eq_false (h : c.isUpper = false) : c.toLower = c :=
  dif_neg (of_decide_eq_false h)

/-- A capital becomes a small letter. -/
theorem isLower_toLower (h : c.isUpper = true) : c.toLower.isLower = true := by
  have hrange : 'A'.val ≤ c.val ∧ c.val ≤ 'Z'.val := of_decide_eq_true h
  have hlower : c.toLower = Char.mk (c.val + ('a'.val - 'A'.val)) _ := dif_pos hrange
  have hfirst := UInt32.le_iff_toNat_le.mp hrange.1
  have hlast := UInt32.le_iff_toNat_le.mp hrange.2
  rw [hlower]
  refine (Bool.and_eq_true _ _).mpr ⟨decide_eq_true (UInt32.le_iff_toNat_le.mpr ?_),
    decide_eq_true (UInt32.le_iff_toNat_le.mpr ?_)⟩
  all_goals
    simp only [Char.reduceVal, UInt32.reduceToNat, UInt32.reduceSub, UInt32.toNat_add,
      Nat.reducePow] at hfirst hlast ⊢
    omega

/-- A letter in lower case is not a capital any more. -/
theorem isUpper_toLower (c : Char) : c.toLower.isUpper = false := by
  cases h : c.isUpper with
  | false => rwa [toLower_of_isUpper_eq_false h]
  | true => exact isUpper_of_small (toNat_of_isLower (isLower_toLower h)).1

theorem toNat_toLower_lt (h : c.toNat < 0x80) : c.toLower.toNat < 0x80 := by
  cases hupper : c.isUpper with
  | false => rwa [toLower_of_isUpper_eq_false hupper]
  | true => exact Nat.lt_trans (toNat_of_isLower (isLower_toLower hupper)).2 (by decide)

end ComputedField.Text
