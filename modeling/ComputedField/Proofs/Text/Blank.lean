import ComputedField.Text.Blank

/-!
# Blanks one by one

There are few blanks, so that a property of characters is refuted for all of them by their codes.
-/

namespace ComputedField.Text

variable {c : Char}

/-- The code points of the blanks. -/
def blankPoints : List Nat :=
  List.range' 0x09 5 ++ List.range' 0x2000 11 ++
    [0x20, 0x85, 0xA0, 0x1680, 0x2028, 0x2029, 0x202F, 0x205F, 0x3000]

theorem mem_blankPoints (h : isBlank c = true) : c.toNat ∈ blankPoints := by
  simp [isBlank] at h
  simp only [blankPoints, List.mem_append, List.mem_range'_1, List.mem_cons, List.not_mem_nil, or_false]
  omega

theorem eq_false_of_isBlank {p : Char → Bool} (hnone : ∀ n ∈ blankPoints, p (Char.ofNat n) = false)
    (h : isBlank c = true) : p c = false := by
  have hc := hnone c.toNat (mem_blankPoints h)
  rwa [Char.ofNat_toNat] at hc

end ComputedField.Text
