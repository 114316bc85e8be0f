/-!
# Runs of characters

A text falls into maximal runs of the characters that a test accepts, and what lies between them.
-/

namespace ComputedField.Text

variable (accepts : Char → Bool)

/-- The runs of the rest of a text; `run` is the current one, last character first. -/
def runsAfter (run : List Char) : List Char → List (List Char)
  | [] => if run.isEmpty then [] else [run.reverse]
  | c :: rest =>
    if accepts c then runsAfter (c :: run) rest
    else if run.isEmpty then runsAfter [] rest
    else run.reverse :: runsAfter [] rest

def runs (s : List Char) : List (List Char) := runsAfter accepts [] s

theorem mem_runsAfter {run s r : List Char} (hrun : ∀ c ∈ run, accepts c = true)
    (hr : r ∈ runsAfter accepts run s) : r ≠ [] ∧ ∀ c ∈ r, accepts c = true := by
  induction s generalizing run with
  | nil =>
    cases run with
    | nil => simp [runsAfter] at hr
    | cons d ds =>
      simp only [runsAfter, List.isEmpty_cons, Bool.false_eq_true, ↓reduceIte,
        List.mem_singleton] at hr
      subst hr
      exact ⟨by simp, fun c hc => hrun c (List.mem_reverse.mp hc)⟩
  | cons d rest ih =>
    simp only [runsAfter] at hr
    split at hr
    · rename_i hd
      refine ih (fun c hc => ?_) hr
      rcases List.mem_cons.mp hc with rfl | hc
      · exact hd
      · exact hrun c hc
    · cases run with
      | nil =>
        have hr : r ∈ runsAfter accepts [] rest := by simpa using hr
        exact ih (by simp) hr
      | cons e es =>
        have hr : r ∈ (e :: es).reverse :: runsAfter accepts [] rest := by simpa using hr
        rcases List.mem_cons.mp hr with rfl | hr
        · exact ⟨by simp, fun c hc => hrun c (by simpa [or_comm] using hc)⟩
        · exact ih (by simp) hr

/-- Runs are not empty and hold accepted characters only. -/
theorem mem_runs {s r : List Char} (hr : r ∈ runs accepts s) :
    r ≠ [] ∧ ∀ c ∈ r, accepts c = true :=
  mem_runsAfter accepts (by simp) hr

end ComputedField.Text
