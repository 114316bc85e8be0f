import Mathlib.Data.List.Infix
import ComputedField.Text.Search

/-!
# The first occurrence

A text is split at a pattern exactly if the pattern occurs in it, and then where it occurs first.
-/

namespace ComputedField.Text

/-- Whether the pattern stands in a text behind `before` and nowhere earlier. -/
structure OccursFirst (pattern before s : List Char) : Prop where
  occurs : before ++ pattern <+: s
  shortest : ∀ other, other ++ pattern <+: s → before.length ≤ other.length

variable {pattern before after s : List Char}

theorem stripPrefix?_eq_none {start : List Char} (h : ¬start <+: s) : stripPrefix? start s = none := by
  rw [stripPrefix?, if_neg]
  simpa using h

/-- What is removed stood at the front. -/
theorem append_of_stripPrefix? {start rest : List Char} (h : stripPrefix? start s = some rest) :
    s = start ++ rest := by
  rw [stripPrefix?] at h
  split at h
  · rename_i hp
    obtain ⟨tail, rfl⟩ := List.isPrefixOf_iff_prefix.mp hp
    rw [List.drop_left] at h
    cases h
    rfl
  · cases h

/-- A text is split by a pattern exactly if it has the pattern within it. -/
theorem isSome_splitOnce?_iff : (splitOnce? pattern s).isSome = true ↔ pattern <:+: s := by
  induction s with
  | nil =>
    rw [splitOnce?, List.infix_nil]
    cases pattern <;> simp
  | cons c rest ih =>
    rw [splitOnce?, List.infix_cons_iff]
    split
    case isTrue hp => simp [List.isPrefixOf_iff_prefix.mp hp]
    case isFalse hp =>
      rw [List.isPrefixOf_iff_prefix] at hp
      rw [Option.isSome_map, ih]
      exact (or_iff_right hp).symm

/-- The split is made at the first occurrence. -/
theorem length_le_of_splitOnce? (h : splitOnce? pattern s = some (before, after)) {other : List Char}
    (hother : other ++ pattern <+: s) : before.length ≤ other.length := by
  induction s generalizing before other with
  | nil =>
    have hs := splitOnce?_eq_some h
    simp only [List.nil_eq, List.append_eq_nil_iff] at hs
    simp [hs]
  | cons c rest ih =>
    rw [splitOnce?] at h
    split at h
    case isTrue =>
      cases h
      exact Nat.zero_le _
    case isFalse hp =>
      obtain ⟨⟨b, a⟩, hb, heq⟩ := Option.map_eq_some_iff.mp h
      cases heq
      -- The pattern is not at the front, so that something stands before it.
      cases other with
      | nil => exact absurd (List.isPrefixOf_iff_prefix.mpr hother) hp
      | cons e other =>
        have hrest : other ++ pattern <+: rest := (List.cons_prefix_cons.mp hother).2
        exact Nat.succ_le_succ (ih hb hrest)

theorem occursFirst_of_splitOnce? (h : splitOnce? pattern s = some (before, after)) :
    OccursFirst pattern before s where
  occurs := ⟨after, (splitOnce?_eq_some h).symm⟩
  shortest _ hother := length_le_of_splitOnce? h hother

end ComputedField.Text
