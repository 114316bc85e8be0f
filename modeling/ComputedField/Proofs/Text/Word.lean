import ComputedField.Proofs.Text.Ascii
import ComputedField.Proofs.Text.Blank
import ComputedField.Text.AnyCase
import ComputedField.Text.Word

/-!
# What is in a word

The letters of ASCII are characters of words, as are the two that count as letters when case does not
count. Blanks are none.
-/

namespace ComputedField.Text

variable {c : Char}

theorem isBlank_of_isWord (h : isWord c = true) : isBlank c = false := by
  have hnone : ∀ n ∈ blankPoints, isWord (Char.ofNat n) = false := by decide +kernel
  rw [Bool.eq_false_iff]
  intro hblank
  rw [eq_false_of_isBlank hnone hblank] at h
  cases h

theorem isWord_of_isLower_toLower (h : c.toLower.isLower = true) : isWord c = true := by
  have halpha : c.isAlpha = true := by
    refine Bool.or_eq_true_iff.mpr ?_
    cases hupper : c.isUpper with
    | true => exact .inl rfl
    | false =>
      rw [toLower_of_isUpper_eq_false hupper] at h
      exact .inr h
  have hc : c.toNat < 0x80 := Nat.lt_trans (toNat_of_isAlpha halpha).2 (by decide)
  rw [isWord_ascii hc, Char.isAlphanum, halpha]
  rfl

/-- What is a letter when case does not count is part of a word, the long s and the sign of a unit
included. -/
theorem isWord_of_isFoldedLetter (h : isFoldedLetter c = true) : isWord c = true := by
  unfold isFoldedLetter foldCase at h
  split at h
  · rename_i hc
    rw [hc]
    decide +kernel
  · split at h
    · rename_i hc
      rw [hc]
      decide +kernel
    · exact isWord_of_isLower_toLower h

end ComputedField.Text
