import ComputedField.Markup.Reference
import ComputedField.Proofs.Format.Handle
import ComputedField.Sql.Literal

/-!
# Handles stand as they are

A handle is put into attributes and patterns. Nothing that is escaped there is ever in one: its only mark
is the dash between two words, and blanks are gone with the rest of the punctuation.
-/

namespace ComputedField.Format

open Text

variable {maxLength : Nat} {text s : String} {c : Char}

/-- Markup reserves nothing that handles are made of. -/
theorem escapeChar_of_isHandleChar (h : isHandleChar c = true) : Markup.escapeChar c = [c] := by
  unfold Markup.escapeChar
  split
  · cases h
  · cases h
  · cases h
  · cases h
  · cases h
  · rfl

theorem escapeLikeChar_of_isHandleChar (h : isHandleChar c = true) : Sql.escapeLikeChar c = [c] := by
  refine if_neg ?_
  rintro (rfl | rfl | rfl) <;> cases h

/-- What takes every character for itself leaves a text as it is. -/
theorem flatMap_eq_self {f : Char → List Char} {s : List Char} (h : ∀ c ∈ s, f c = [c]) :
    s.flatMap f = s := by
  rw [List.flatMap_congr h, List.flatMap_singleton']

theorem IsHandle.escape_eq_self (h : IsHandle s.toList) : Markup.escape s = s := by
  have hchars : ∀ c ∈ s.toList, Markup.escapeChar c = [c] := by
    intro c hc
    rcases (h.mem hc).1 with hhandle | rfl
    · exact escapeChar_of_isHandleChar hhandle
    · rfl
  rw [Markup.escape, flatMap_eq_self hchars, String.ofList_toList]

theorem IsHandle.escapeLike_eq_self {s : List Char} (h : IsHandle s) : Sql.escapeLike s = s := by
  refine flatMap_eq_self fun c hc => ?_
  rcases (h.mem hc).1 with hhandle | rfl
  · exact escapeLikeChar_of_isHandleChar hhandle
  · rfl

/-- No character of a handle is a blank or a mark, but for the dashes. -/
theorem IsHandle.not_mem_punctuation {s : List Char} (h : IsHandle s) (hc : c ∈ s) :
    isBlank c = false ∧ c ∉ punctuation.erase '-' := by
  rcases (h.mem hc).1 with hhandle | rfl
  · simp only [isHandleChar, Bool.and_eq_true, Bool.not_eq_true', List.contains_eq_mem,
      decide_eq_false_iff_not] at hhandle
    exact ⟨hhandle.1, fun hmem => hhandle.2 (List.mem_of_mem_erase hmem)⟩
  · decide

/-- A handle is words with single dashes between them, with no blank and no mark in the words. So it
needs no escape in markup and none in a pattern. -/
theorem escape_and_escapeLike_handle? (h : handle? maxLength text = some s) :
    (∃ ws, ws ≠ [] ∧ s.toList = ['-'].intercalate ws ∧ ∀ w ∈ ws, w ≠ [] ∧ '-' ∉ w) ∧
      (s.toList.head? ≠ some '-' ∧ s.toList.getLast? ≠ some '-' ∧ ¬ ['-', '-'] <:+: s.toList) ∧
      (∀ c ∈ s.toList, isBlank c = false ∧ c ∉ punctuation.erase '-') ∧
      Markup.escape s = s ∧ Sql.escapeLike s.toList = s.toList := by
  have hhandle := isHandle_of_handle? h
  obtain ⟨ws, hne, hs, hws⟩ := id hhandle
  have hapart : ∀ w ∈ ws, w ≠ [] ∧ '-' ∉ w := by
    refine fun w hw => ⟨(hws w hw).1, fun hdash => ?_⟩
    have hmark := ((hws w hw).2 '-' hdash).1
    rw [isHandleChar_dash] at hmark
    cases hmark
  refine ⟨⟨ws, hne, hs, hapart⟩, ?_, fun c hc => hhandle.not_mem_punctuation hc,
    hhandle.escape_eq_self, hhandle.escapeLike_eq_self⟩
  rw [hs]
  exact ⟨head?_intercalate_ne hapart, getLast?_intercalate_ne hapart, not_infix_intercalate hapart⟩

theorem escape_and_escapeLike_handle?_marks :
    handle? 40 "  O'Neil & <b>Sons</b> -- 100%_off…" = some "oneil-sons-100-off" ∧
      ¬ ['-', '-'] <:+: "oneil-sons-100-off".toList ∧
      Markup.escape "oneil-sons-100-off" = "oneil-sons-100-off" ∧
      Sql.escapeLike "oneil-sons-100-off".toList = "oneil-sons-100-off".toList := by
  have h : handle? 40 "  O'Neil & <b>Sons</b> -- 100%_off…" = some "oneil-sons-100-off" := by
    decide
  obtain ⟨-, ⟨-, -, hpair⟩, -, hescape, hlike⟩ := escape_and_escapeLike_handle? h
  exact ⟨h, hpair, hescape, hlike⟩

end ComputedField.Format
