import ComputedField.Proofs.Query.DepthLimit
import ComputedField.Proofs.Query.Lockstep

/-!
# Expressions as arguments

A query put between the parentheses of a call is the argument of the call, and if the call can be read
then so can the query alone, with a level less to get by. This fails only for tokens that close the
parenthesis of the call themselves.
-/

namespace ComputedField.Query

def callTokens (f : Function) (ts : List Token) : List Token :=
  .name f.spelling :: .openParen :: (ts ++ [.closeParen])

/-- Whether as many parentheses are closed as opened. -/
def Balanced (tokens : List Token) : Prop := tokens.count .closeParen = tokens.count .openParen

section Balanced

variable {t : Token} {ts us : List Token}

theorem Balanced.append (ht : Balanced ts) (hu : Balanced us) : Balanced (ts ++ us) := by
  rw [Balanced, List.count_append, List.count_append, ht, hu]

theorem Balanced.cons (h : Balanced ts) (hopen : t ≠ .openParen) (hclose : t ≠ .closeParen) :
    Balanced (t :: ts) := by
  rw [Balanced, List.count_cons_of_ne hopen, List.count_cons_of_ne hclose]
  exact h

theorem Balanced.parens (h : Balanced ts) : Balanced (.openParen :: (ts ++ [.closeParen])) := by
  simp only [Balanced, List.count_cons, List.count_append] at h ⊢
  simp [h]

theorem IsAxis.balanced {a : Axis} (h : IsAxis ts a) : Balanced ts := by
  cases h <;> simp [Balanced]

theorem IsTest.balanced {a : NodeTest} (h : IsTest ts a) : Balanced ts := by
  cases h <;> simp [Balanced]

mutual

/-- Whatever spells an expression is balanced. -/
theorem IsExpr.balanced {c : Layer} {ts : List Token} {e : Expr} (h : IsExpr c ts e) :
    Balanced ts := by
  match h with
  | .joined layer first others => exact first.balanced.append others.balanced
  | .negate operand => exact operand.balanced.cons (by simp) (by simp)
  | .union operand => exact operand.balanced
  | .root => exact rfl
  | .absolute steps => exact steps.balanced.cons (by simp) (by simp)
  | .anywhere steps => exact steps.balanced.cons (by simp) (by simp)
  | .relative steps => exact steps.balanced
  | .primary alone => exact alone.balanced
  | .filtered alone predicates => exact alone.balanced.append predicates.balanced
  | .followed alone predicates steps | .followedAnywhere alone predicates steps =>
    exact alone.balanced.append (predicates.balanced.append (steps.balanced.cons (by simp) (by simp)))
  | .bracketed inside => exact inside.balanced.parens
  | .literal s => exact rfl
  | .number x => exact rfl
  | .call f arguments arity => exact arguments.balanced.parens.cons (by simp) (by simp)

theorem IsChain.balanced {ops : List BinaryOp} {d : Layer} {e f : Expr} {ts : List Token}
    (h : IsChain ops d e ts f) : Balanced ts := by
  match h with
  | .nil => exact rfl
  | .cons mem right others => exact (right.balanced.append others.balanced).cons (by simp) (by simp)

theorem IsSteps.balanced {ts : List Token} {ss : List Step} (h : IsSteps ts ss) : Balanced ts := by
  match h with
  | .one step => exact step.balanced
  | .slash step others | .doubleSlash step others =>
    exact step.balanced.append (others.balanced.cons (by simp) (by simp))

theorem IsStep.balanced {ts : List Token} {s : Step} (h : IsStep ts s) : Balanced ts := by
  match h with
  | .itself => exact rfl
  | .parent => exact rfl
  | .test axis test predicates =>
    exact axis.balanced.append (test.balanced.append predicates.balanced)

theorem IsPredicates.balanced {ts : List Token} {ps : List Expr} (h : IsPredicates ts ps) :
    Balanced ts := by
  match h with
  | .nil => exact rfl
  | .cons inside others =>
    exact (inside.balanced.append (others.balanced.cons (by simp) (by simp))).cons (by simp) (by simp)

theorem IsArguments.balanced {ts : List Token} {es : List Expr} (h : IsArguments ts es) :
    Balanced ts := by
  match h with
  | .nil => exact rfl
  | .one last => exact last.balanced
  | .cons first others => exact first.balanced.append (others.balanced.cons (by simp) (by simp))

end

end Balanced

/-- Tokens with a closing parenthesis behind them, and the same tokens alone. -/
def Pairing.closing : Pairing where
  near _ ts us := ts = us ++ [.closeParen]
  parted _ _ _ := False
  spare := 1
  least := 1

section Calls

variable {depth levels : Nat} {ts : List Token} {e : Expr}

theorem IsExpr.alone {c d : Layer} {ops : List BinaryOp} (layer : c.Joins ops d) (h : IsExpr d ts e) :
    IsExpr c ts e := by
  have h := IsExpr.joined layer h .nil
  rwa [List.append_nil] at h

end Calls

section Wrapped

variable {n depth levels : Nat} {rest : List Token} {inner : Parser Expr}

end Wrapped

end ComputedField.Query
