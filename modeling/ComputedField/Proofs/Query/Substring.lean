import ComputedField.Proofs.Fallible
import ComputedField.Proofs.Text.Search
import ComputedField.Query.Eval

/-!
# What stands before and after

Whether one text contains another, and what stands before and after it there, is asked of the same
first occurrence: the two sides and the text between them make up the whole exactly if there is one.
-/

namespace ComputedField.Query

open Markup (Document)
open Text

variable {d : Document} {c : Context} {a b : Expr} {v w : Value}

theorem eval_call_two (f : Function) (ha : a.eval d c = .ok v) (hb : b.eval d c = .ok w) :
    (Expr.call f [a, b]).eval d c = c.call d f [v, w] := by
  rw [Expr.eval, evalAll, evalAll, evalAll, ha, hb]
  rfl

theorem eval_call_three {e : Expr} {u : Value} (f : Function) (ha : a.eval d c = .ok v)
    (hb : b.eval d c = .ok w) (he : e.eval d c = .ok u) :
    (Expr.call f [a, b, e]).eval d c = c.call d f [v, w, u] := by
  rw [Expr.eval, evalAll, evalAll, evalAll, evalAll, ha, hb, he]
  rfl

theorem eval_joined {before after : String} {e f : Expr} (he : e.eval d c = ofText before)
    (hb : b.eval d c = .ok w) (hf : f.eval d c = ofText after) :
    (Expr.call .concat [e, b, f]).eval d c = ofText (before ++ w.toText d ++ after) := by
  rw [eval_call_three .concat he hb hf]
  change ofText (String.join [before, w.toText d, after]) = _
  simp [String.join]

/-- One value contains another exactly if what stands before the other, the other and what stands after
it make up the whole. What stands before is then the shortest beginning of the whole behind which the
other occurs, and without an occurrence nothing stands on either side. -/
theorem contains_iff_joined (ha : a.eval d c = .ok v) (hb : b.eval d c = .ok w) :
    ∃ (found : Bool) (before after joined : String),
      (Expr.call .contains [a, b]).eval d c = ofTruth found ∧
      (Expr.call .substringBefore [a, b]).eval d c = ofText before ∧
      (Expr.call .substringAfter [a, b]).eval d c = ofText after ∧
      (Expr.call .concat [.call .substringBefore [a, b], b, .call .substringAfter [a, b]]).eval d c =
        ofText joined ∧
      (found = true ↔ joined = v.toText d) ∧
      (found = true ↔ (w.toText d).toList <:+: (v.toText d).toList) ∧
      (found = true → OccursFirst (w.toText d).toList before.toList (v.toText d).toList) ∧
      (found = false → before = "" ∧ after = "") := by
  have hcontains := eval_call_two .contains ha hb
  have hbefore := eval_call_two .substringBefore ha hb
  have hafter := eval_call_two .substringAfter ha hb
  simp only [Context.call] at hcontains hbefore hafter
  have hjoined := eval_joined hbefore hb hafter
  refine ⟨_, _, _, _, hcontains, hbefore, hafter, hjoined, ?_⟩
  have hfound : (splitOnce? (w.toText d).toList (v.toText d).toList).isSome = true ↔
      (w.toText d).toList <:+: (v.toText d).toList := isSome_splitOnce?_iff
  rw [splitAt?]
  cases hsplit : splitOnce? (w.toText d).toList (v.toText d).toList with
  | none =>
    rw [hsplit] at hfound
    have hne : w.toText d ≠ v.toText d := by
      intro heq
      rw [heq] at hfound
      exact Bool.false_ne_true (hfound.mpr (List.infix_refl _))
    simpa [hne] using hfound
  | some sides =>
    obtain ⟨before, after⟩ := sides
    rw [hsplit] at hfound
    have hwhole : String.ofList before ++ w.toText d ++ String.ofList after = v.toText d := by
      apply String.toList_injective
      simp [splitOnce?_eq_some hsplit]
    have hfirst := occursFirst_of_splitOnce? hsplit
    simpa [hwhole, hfirst] using hfound

/-- Two occurrences that overlap, in the text of an element. -/
theorem contains_iff_joined_overlapping :
    ∃ (d : Document) (a b : Expr) (before after : String),
      a.eval d .ofRoot = .ok (.nodes [1]) ∧ b.eval d .ofRoot = ofText "aba" ∧
      (Expr.call .contains [a, b]).eval d .ofRoot = ofTruth true ∧
      (Expr.call .substringBefore [a, b]).eval d .ofRoot = ofText before ∧
      (Expr.call .substringAfter [a, b]).eval d .ofRoot = ofText after ∧
      OccursFirst "aba".toList before.toList "xababa".toList ∧
      (Expr.call .concat [.call .substringBefore [a, b], b, .call .substringAfter [a, b]]).eval d
        .ofRoot = ofText "xababa" := by
  let d : Document := .ofContent [.element "r" [] [.text "xababa"]]
  let a : Expr := .path false [.mk .child (.name "r") []]
  have ha : a.eval d .ofRoot = .ok (.nodes [1]) := by cbv
  have hb : (Expr.literal "aba").eval d .ofRoot = ofText "aba" := rfl
  have hwhole : (Value.nodes [1]).toText d = "xababa" := by decide +kernel
  obtain ⟨found, before, after, joined, hcontains, hbefore, hafter, hjoined, hmakes, hoccurs,
    hfirst, -⟩ := contains_iff_joined ha hb
  rw [hwhole] at hmakes hoccurs hfirst
  have hfound : found = true := hoccurs.mpr ⟨['x'], ['b', 'a'], by decide⟩
  obtain rfl := hmakes.mp hfound
  exact ⟨d, a, _, before, after, ha, hb, hfound ▸ hcontains, hbefore, hafter, hfirst hfound, hjoined⟩

end ComputedField.Query
