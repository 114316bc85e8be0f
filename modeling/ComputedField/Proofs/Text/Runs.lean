import Mathlib.Data.List.Chain
import ComputedField.Text.Runs

/-!
# Runs and gaps

Runs with a gap between them are what the text falls into again, and a text has all the characters that
its runs have with a single one in each gap. Words that are joined by gaps have none at either end, and
no two side by side.
-/

namespace ComputedField.Text

variable {accepts : Char → Bool} {gap : Char}

theorem mem_intercalate {ws : List (List Char)} {c : Char} (h : c ∈ [gap].intercalate ws) :
    (∃ w ∈ ws, c ∈ w) ∨ c = gap := by
  induction ws with
  | nil => cases h
  | cons w rest ih =>
    cases rest with
    | nil =>
      rw [List.intercalate_singleton] at h
      exact .inl ⟨w, List.mem_cons_self, h⟩
    | cons u others =>
      rw [List.intercalate_cons_cons, List.append_assoc, List.mem_append, List.singleton_append,
        List.mem_cons] at h
      rcases h with h | rfl | h
      · exact .inl ⟨w, List.mem_cons_self, h⟩
      · exact .inr rfl
      · refine (ih h).imp_left ?_
        rintro ⟨v, hv, hc⟩
        exact ⟨v, List.mem_cons_of_mem w hv, hc⟩

section Gaps

variable {ws : List (List Char)}

/-- No gap stands in front of the first word. -/
theorem head?_intercalate_ne (hws : ∀ w ∈ ws, w ≠ [] ∧ gap ∉ w) :
    ([gap].intercalate ws).head? ≠ some gap := by
  cases ws with
  | nil => simp
  | cons w rest =>
    obtain ⟨hne, hgap⟩ := hws w List.mem_cons_self
    obtain ⟨c, w, rfl⟩ := List.exists_cons_of_ne_nil hne
    have hc : c ≠ gap := fun hc => hgap (hc ▸ List.mem_cons_self)
    cases rest with
    | nil => simpa [List.intercalate_singleton] using hc
    | cons u others => simpa [List.intercalate_cons_cons] using hc

/-- No gap stands behind the last word. -/
theorem getLast?_intercalate_ne (hws : ∀ w ∈ ws, w ≠ [] ∧ gap ∉ w) :
    ([gap].intercalate ws).getLast? ≠ some gap := by
  induction ws with
  | nil => simp
  | cons w rest ih =>
    cases rest with
    | nil =>
      rw [List.intercalate_singleton]
      exact fun hlast => (hws w List.mem_cons_self).2 (List.mem_of_getLast? hlast)
    | cons u others =>
      have hu := (hws u (List.mem_cons_of_mem w List.mem_cons_self)).1
      have hne : [gap].intercalate (u :: others) ≠ [] := by
        cases others with
        | nil => rwa [List.intercalate_singleton]
        | cons v others => simp [List.intercalate_cons_cons]
      rw [List.intercalate_cons_cons, List.getLast?_append_of_ne_nil _ hne]
      exact ih fun v hv => hws v (List.mem_cons_of_mem w hv)

/-- No two gaps are side by side where words with a single one between them are joined. -/
theorem isChain_intercalate (hws : ∀ w ∈ ws, w ≠ [] ∧ gap ∉ w) :
    ([gap].intercalate ws).IsChain fun c d => c ≠ gap ∨ d ≠ gap := by
  induction ws with
  | nil => exact .nil
  | cons w rest ih =>
    have hapart : ∀ c ∈ w, c ≠ gap := fun c hc heq => (hws w List.mem_cons_self).2 (heq ▸ hc)
    have hword : w.IsChain fun c d => c ≠ gap ∨ d ≠ gap :=
      (List.pairwise_of_forall_mem_list fun c hc _ _ => .inl (hapart c hc)).isChain
    have hrest : ∀ v ∈ rest, v ≠ [] ∧ gap ∉ v := fun v hv => hws v (List.mem_cons_of_mem w hv)
    cases rest with
    | nil => rwa [List.intercalate_singleton]
    | cons u others =>
      rw [List.intercalate_cons_cons, List.append_assoc, List.singleton_append, List.isChain_append,
        List.isChain_cons]
      refine ⟨hword, ⟨fun d hd => .inr ?_, ih hrest⟩, fun c hc _ _ => .inl ?_⟩
      · rintro rfl
        exact head?_intercalate_ne hrest hd
      · exact hapart c (List.mem_of_getLast? hc)

/-- No two gaps meet. -/
theorem not_infix_intercalate (hws : ∀ w ∈ ws, w ≠ [] ∧ gap ∉ w) :
    ¬ [gap, gap] <:+: [gap].intercalate ws := by
  rintro ⟨front, back, heq⟩
  have hchain := isChain_intercalate hws
  rw [← heq, List.append_assoc] at hchain
  rcases (List.isChain_cons_cons.mp hchain.right_of_append).1 with h | h
  · exact h rfl
  · exact h rfl

end Gaps

theorem runsAfter_append {w : List Char} (hw : ∀ c ∈ w, accepts c = true) (run s : List Char) :
    runsAfter accepts run (w ++ s) = runsAfter accepts (w.reverse ++ run) s := by
  induction w generalizing run with
  | nil => rfl
  | cons c rest ih =>
    rw [List.cons_append, runsAfter, if_pos (hw c List.mem_cons_self),
      ih (fun d hd => hw d (List.mem_cons_of_mem c hd)), List.reverse_cons, List.append_assoc]
    rfl

theorem runs_word {w : List Char} (hne : w ≠ []) (hw : ∀ c ∈ w, accepts c = true) :
    runs accepts w = [w] := by
  have h := runsAfter_append hw [] []
  rw [List.append_nil, List.append_nil] at h
  rw [runs, h, runsAfter, if_neg (by simpa using hne), List.reverse_reverse]

theorem runs_word_gap {w : List Char} (hne : w ≠ []) (hw : ∀ c ∈ w, accepts c = true)
    (hgap : accepts gap = false) (s : List Char) :
    runs accepts (w ++ gap :: s) = w :: runs accepts s := by
  rw [runs, runsAfter_append hw, List.append_nil, runsAfter, if_neg (by simp [hgap]),
    if_neg (by simpa using hne), List.reverse_reverse]
  rfl

/-- Words with single gaps between them are the runs of what they make up. -/
theorem runs_intercalate {ws : List (List Char)} (hgap : accepts gap = false)
    (hws : ∀ w ∈ ws, w ≠ [] ∧ ∀ c ∈ w, accepts c = true) :
    runs accepts ([gap].intercalate ws) = ws := by
  induction ws with
  | nil => rfl
  | cons w rest ih =>
    obtain ⟨hne, hw⟩ := hws w List.mem_cons_self
    cases rest with
    | nil => rw [List.intercalate_singleton, runs_word hne hw]
    | cons u others =>
      rw [List.intercalate_cons_cons, List.append_assoc, List.singleton_append,
        runs_word_gap hne hw hgap, ih fun v hv => hws v (List.mem_cons_of_mem w hv)]

/-- There are no runs where nothing is accepted. -/
theorem runsAfter_eq_nil_iff {run s : List Char} :
    runsAfter accepts run s = [] ↔ run = [] ∧ ∀ c ∈ s, accepts c = false := by
  induction s generalizing run with
  | nil => cases run <;> simp [runsAfter]
  | cons c rest ih =>
    rw [runsAfter]
    by_cases hc : accepts c = true
    · simp [hc, ih]
    · cases run with
      | nil => simp [hc, ih]
      | cons d others => simp [hc]

/-- A text has no runs if nothing in it is accepted. -/
theorem runs_eq_nil_iff {s : List Char} : runs accepts s = [] ↔ ∀ c ∈ s, accepts c = false := by
  rw [runs, runsAfter_eq_nil_iff, and_iff_right rfl]

/-- Of no kind are there more characters in the runs with one character in each gap than in the text, if
all that may stand in a gap is of the kind when that one is. -/
theorem countP_intercalate_runsAfter {p : Char → Bool}
    (hp : p gap = true → ∀ c, accepts c = false → p c = true) (run s : List Char) :
    ([gap].intercalate (runsAfter accepts run s)).countP p ≤ run.countP p + s.countP p := by
  induction s generalizing run with
  | nil =>
    rw [runsAfter]
    split
    · exact Nat.zero_le _
    · rw [List.intercalate_singleton, List.countP_reverse]
      exact Nat.le_add_right _ _
  | cons c rest ih =>
    rw [runsAfter]
    split
    · have h := ih (c :: run)
      rw [List.countP_cons] at h ⊢
      omega
    · rename_i hc
      have hgap : (if p gap then 1 else 0) ≤ if p c then 1 else 0 := by
        by_cases h : p gap = true
        · simp [h, hp h c (by simpa using hc)]
        · simp [h]
      have hrest := ih []
      rw [List.countP_nil] at hrest
      rw [List.countP_cons]
      split
      · omega
      · cases hruns : runsAfter accepts [] rest with
        | nil =>
          rw [List.intercalate_singleton, List.countP_reverse]
          omega
        | cons r others =>
          rw [hruns] at hrest
          rw [List.intercalate_cons_cons, List.countP_append, List.countP_append, List.countP_reverse,
            List.countP_singleton]
          omega

theorem countP_intercalate_runs {p : Char → Bool}
    (hp : p gap = true → ∀ c, accepts c = false → p c = true) (s : List Char) :
    ([gap].intercalate (runs accepts s)).countP p ≤ s.countP p := by
  have h := countP_intercalate_runsAfter hp [] s
  rwa [List.countP_nil, Nat.zero_add] at h

end ComputedField.Text
