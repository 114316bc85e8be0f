import ComputedField.Format.Handle
import ComputedField.Proofs.Text.LowerCase
import ComputedField.Proofs.Text.Runs

/-!
# Handles of handles

A handle is words in lower case with single dashes between them, and whatever is so made up is its own
handle unless it is cut. The text is cut before it is put into lower case, though, where a dotted
capital becomes two characters. So a handle may be longer than it should be, and then its own handle is
another.
-/

namespace ComputedField.Format

open Text

/-- Whether a text is words of small characters with single dashes between them. -/
def IsHandle (s : List Char) : Prop :=
  ∃ ws, ws ≠ [] ∧ s = ['-'].intercalate ws ∧
    ∀ w ∈ ws, w ≠ [] ∧ ∀ c ∈ w, isHandleChar c = true ∧ lowerChar c = [c]

section Characters

variable {c x : Char}

theorem isHandleChar_dash : isHandleChar '-' = false := by
  decide

/-- The dash has nothing to do with the letters that change their length. -/
theorem isApart_dash : IsApart '-' := by
  unfold IsApart
  decide

theorem forall_punctuation : (punctuation.all fun p =>
    CapitalRun.clearStretches.all fun s => !(s.1 ≤ p.toNat && p.toNat < s.2)) = true := by
  decide

/-- No blank and no punctuation lies in a clear stretch. -/
theorem isHandleChar_of_isClear (h : CapitalRun.IsClear c.toNat) : isHandleChar c = true := by
  obtain ⟨stretch, hmem, hin⟩ := h
  have hmark : c ∉ punctuation := by
    intro hc
    have hout := List.all_eq_true.mp (List.all_eq_true.mp forall_punctuation c hc) stretch hmem
    simp [hin.1, hin.2] at hout
  have hblank : isBlank c = false := by
    simp only [CapitalRun.clearStretches, List.mem_cons, List.not_mem_nil, or_false] at hmem
    rcases hmem with rfl | rfl | rfl | rfl | rfl | rfl <;> simp [isBlank] <;> omega
  simp [isHandleChar, hblank, hmark]

theorem isHandleChar_toLower (h : isHandleChar c = true) : isHandleChar c.toLower = true := by
  cases hupper : c.isUpper with
  | false => rwa [toLower_of_isUpper_eq_false hupper]
  | true =>
    exact isHandleChar_of_isClear
      ⟨(0x61, 0x7B), by decide, toNat_of_isLower (isLower_toLower hupper)⟩

/-- A character of a handle does not become a blank or a mark in lower case. -/
theorem isHandleChar_of_mem_lowerChar (hc : isHandleChar c = true) (h : x ∈ lowerChar c) :
    isHandleChar x = true := by
  rcases lowerChar_cases c with ⟨-, he⟩ | ⟨-, he⟩ | ⟨r, hr, y, hy, he⟩ | he
  · rw [he, List.mem_singleton] at h
    rw [h]
    exact isHandleChar_toLower hc
  · rw [he, List.mem_cons, List.mem_singleton] at h
    rcases h with rfl | rfl <;> decide
  · rw [he, List.mem_singleton] at h
    rw [h]
    exact isHandleChar_of_isClear (CapitalRun.isClear_of_lower? hr hy)
  · rw [he, List.mem_singleton] at h
    rwa [h]

theorem isHandleChar_of_mem_lower {w : List Char} (hw : ∀ c ∈ w, isHandleChar c = true)
    (h : x ∈ lower w) : isHandleChar x = true := by
  rcases mem_lowerAfter h with ⟨c, hc, hx⟩ | rfl
  · exact isHandleChar_of_mem_lowerChar (hw c hc) hx
  · decide

end Characters

section Source

variable {s : List Char}

theorem stripTags_eq_self (h : '<' ∉ s) : stripTags s = s := by
  unfold stripTags
  induction s with
  | nil => rfl
  | cons c rest ih =>
    rw [List.mem_cons, not_or] at h
    rw [stripTagsFrom, if_neg Bool.false_ne_true, if_neg (fun hc => h.1 hc.1.symm), ih h.2]

theorem IsHandle.mem (h : IsHandle s) {c : Char} (hc : c ∈ s) :
    (isHandleChar c = true ∨ c = '-') ∧ lowerChar c = [c] := by
  obtain ⟨ws, -, rfl, hws⟩ := h
  rcases mem_intercalate hc with ⟨w, hw, hc⟩ | rfl
  · obtain ⟨hhandle, hsmall⟩ := (hws w hw).2 c hc
    exact ⟨.inl hhandle, hsmall⟩
  · exact ⟨.inr rfl, isApart_dash.1⟩

theorem isHandleChar_of_isDropped {c : Char} (h : isDropped c = true) : isHandleChar c = false := by
  simp only [isDropped, Bool.or_eq_true, beq_iff_eq] at h
  rcases h with (rfl | rfl) | rfl <;> decide

/-- A handle is cut, and nothing else is left out of it. -/
theorem IsHandle.handleSource_eq (h : IsHandle s) (maxLength : Nat) :
    handleSource maxLength s = s.take maxLength := by
  have htags : '<' ∉ s := by
    intro hc
    rcases (h.mem hc).1 with hhandle | hdash
    · revert hhandle
      decide
    · revert hdash
      decide
  have hkept : ∀ c ∈ s, isDropped c = false := by
    intro c hc
    rw [Bool.eq_false_iff]
    intro hdropped
    rcases (h.mem hc).1 with hhandle | rfl
    · rw [isHandleChar_of_isDropped hdropped] at hhandle
      cases hhandle
    · revert hdropped
      decide
  rw [handleSource, stripTags_eq_self htags, List.filter_eq_self.mpr]
  intro c hc
  rw [hkept c hc]
  rfl

theorem IsHandle.exists_cons (h : IsHandle s) :
    ∃ c rest, s = c :: rest ∧ isHandleChar c = true := by
  obtain ⟨ws, hne, rfl, hws⟩ := h
  obtain ⟨w, others, rfl⟩ := List.exists_cons_of_ne_nil hne
  obtain ⟨hw, hchars⟩ := hws w List.mem_cons_self
  obtain ⟨c, rest, rfl⟩ := List.exists_cons_of_ne_nil hw
  refine ⟨c, ?_⟩
  cases others with
  | nil =>
    rw [List.intercalate_singleton]
    exact ⟨rest, rfl, (hchars c List.mem_cons_self).1⟩
  | cons u others =>
    rw [List.intercalate_cons_cons]
    exact ⟨_, rfl, (hchars c List.mem_cons_self).1⟩

end Source

section Handles

variable {maxLength : Nat} {text s : String}

/-- A handle is made if there are words at all, by joining them with dashes and lower-casing them last. -/
theorem handle?_eq_some_iff : handle? maxLength text = some s ↔
    runs isHandleChar (handleSource maxLength text.toList) ≠ [] ∧
      s.toList =
        lower (['-'].intercalate (runs isHandleChar (handleSource maxLength text.toList))) := by
  unfold handle?
  cases runs isHandleChar (handleSource maxLength text.toList) with
  | nil => simp
  | cons w rest =>
    rw [Option.some.injEq, ← String.toList_inj, String.toList_ofList, eq_comm (b := s.toList)]
    exact (and_iff_right (List.cons_ne_nil w rest)).symm

/-- Whatever text it is made of, a handle is words in lower case with single dashes between them. -/
theorem isHandle_of_handle? (h : handle? maxLength text = some s) : IsHandle s.toList := by
  obtain ⟨hne, hs⟩ := handle?_eq_some_iff.mp h
  rw [lower_intercalate isApart_dash] at hs
  refine ⟨_, by simpa using hne, hs, fun w hw => ?_⟩
  obtain ⟨v, hv, rfl⟩ := List.mem_map.mp hw
  obtain ⟨hv, hchars⟩ := mem_runs isHandleChar hv
  refine ⟨?_, fun c hc => ⟨isHandleChar_of_mem_lower hchars hc, lowerChar_of_mem_lower hc⟩⟩
  rw [← List.length_pos_iff, length_lower]
  have := List.length_pos_iff.mpr hv
  omega

/-- Single dashes for what separates words make no text longer, whatever lower case does to it. -/
theorem length_lower_runs_le (src : List Char) :
    (lower (['-'].intercalate (runs isHandleChar src))).length ≤ (lower src).length := by
  have hlength : (['-'].intercalate (runs isHandleChar src)).countP (fun _ => true) ≤
      src.countP (fun _ => true) :=
    countP_intercalate_runs (fun _ _ _ => rfl) src
  have hdotted : (['-'].intercalate (runs isHandleChar src)).count 'İ' ≤ src.count 'İ' :=
    countP_intercalate_runs (fun hdash => absurd hdash (by decide)) src
  rw [List.countP_true] at hlength
  rw [length_lower, length_lower]
  omega

/-- A handle is longer than it may be by no more than the dotted capitals that are left by the cut. -/
theorem length_le_of_handle? (h : handle? maxLength text = some s) :
    s.length ≤ maxLength + (handleSource maxLength text.toList).count 'İ' := by
  obtain ⟨-, hs⟩ := handle?_eq_some_iff.mp h
  have hcut : (handleSource maxLength text.toList).length ≤ maxLength := List.length_take_le _ _
  have hlength := length_lower_runs_le (handleSource maxLength text.toList)
  rw [length_lower (handleSource maxLength text.toList)] at hlength
  rw [← String.length_toList, hs]
  omega

/-- A handle that is not too long is its own handle. -/
theorem IsHandle.handle?_eq_self (h : IsHandle s.toList) (hle : s.length ≤ maxLength) :
    handle? maxLength s = some s := by
  have hsource : handleSource maxLength s.toList = s.toList := by
    rw [h.handleSource_eq, List.take_of_length_le (by rwa [String.length_toList])]
  obtain ⟨ws, hne, hs, hws⟩ := id h
  have hruns : runs isHandleChar s.toList = ws := by
    rw [hs, runs_intercalate isHandleChar_dash]
    exact fun w hw => ⟨(hws w hw).1, fun c hc => ((hws w hw).2 c hc).1⟩
  rw [handle?_eq_some_iff, hsource, hruns, ← hs]
  exact ⟨hne, (lower_eq_self fun c hc => (h.mem hc).2).symm⟩

/-- A handle has a handle, and it is the words of what is left of it when it is cut. -/
theorem IsHandle.exists_handle? (h : IsHandle s.toList) (hpos : 0 < maxLength) :
    ∃ t, handle? maxLength s = some t ∧ t.length ≤ maxLength := by
  obtain ⟨c, rest, hs, hc⟩ := h.exists_cons
  have hmem : ∀ x ∈ s.toList.take maxLength, lowerChar x = [x] :=
    fun x hx => (h.mem (List.mem_of_mem_take hx)).2
  have hcut : (s.toList.take maxLength).length ≤ maxLength := List.length_take_le _ _
  have hfirst : c ∈ s.toList.take maxLength := by
    cases maxLength with
    | zero => cases hpos
    | succ k =>
      rw [hs, List.take_succ_cons]
      exact List.mem_cons_self
  have hne : runs isHandleChar (s.toList.take maxLength) ≠ [] := by
    rw [Ne, runs_eq_nil_iff]
    intro hnone
    rw [hnone c hfirst] at hc
    cases hc
  refine ⟨_, handle?_eq_some_iff.mpr ⟨?_, String.toList_ofList⟩, ?_⟩
  · rwa [h.handleSource_eq]
  · have hlength := length_lower_runs_le (s.toList.take maxLength)
    rw [lower_eq_self hmem] at hlength
    rw [h.handleSource_eq, String.length_ofList]
    exact Nat.le_trans hlength hcut

theorem pos_of_handle? (h : handle? maxLength text = some s) : 0 < maxLength := by
  refine Nat.pos_of_ne_zero ?_
  rintro rfl
  refine (handle?_eq_some_iff.mp h).1 ?_
  rw [handleSource, List.take_zero]
  rfl

/-- A handle is its own handle just if it is not too long, and it can only be too long by the dotted
capitals that it is made of. From the second handle on nothing changes any more. -/
theorem handle?_eq_self_iff (h : handle? maxLength text = some s) :
    s.length ≤ maxLength + (handleSource maxLength text.toList).count 'İ' ∧
      (handle? maxLength s = some s ↔ s.length ≤ maxLength) ∧
      ∃ t, handle? maxLength s = some t ∧ t.length ≤ maxLength ∧ handle? maxLength t = some t := by
  have hhandle := isHandle_of_handle? h
  obtain ⟨t, ht, hle⟩ := hhandle.exists_handle? (pos_of_handle? h)
  refine ⟨length_le_of_handle? h, ⟨fun hself => ?_, hhandle.handle?_eq_self⟩, t, ht, hle, ?_⟩
  · rw [hself] at ht
    cases ht
    exact hle
  · exact (isHandle_of_handle? ht).handle?_eq_self hle

theorem handle?_eq_self_iff_words :
    handle? 20 "Summer <b>Sale</b>: 50% off!" = some "summer-sale-50-off" ∧
      handle? 20 "summer-sale-50-off" = some "summer-sale-50-off" := by
  have h : handle? 20 "Summer <b>Sale</b>: 50% off!" = some "summer-sale-50-off" := by
    decide
  exact ⟨h, (handle?_eq_self_iff h).2.1.mpr (by decide)⟩

/-- The dotted capital takes two characters in lower case, where there is room for one. -/
theorem handle?_dotted : ∃ s, handle? 1 "İ" = some s ∧ ¬ s.length ≤ 1 ∧ handle? 1 s ≠ some s :=
  ⟨"i\u0307", by decide⟩

end Handles

end ComputedField.Format
