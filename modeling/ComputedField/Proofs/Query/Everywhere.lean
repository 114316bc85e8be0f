import ComputedField.Proofs.Query.Completeness

/-!
# What holds everywhere in a query

A property of expressions may be asked of an expression together with all that stand inside it, in
predicates and arguments too. The number of arguments is such a property of every query that parses.
-/

namespace ComputedField.Query

variable (p : Expr → Prop)

mutual

/-- Whether the property holds of the expression and of all inside it. -/
def Expr.Everywhere : Expr → Prop
  | .binary op left right => p (.binary op left right) ∧ left.Everywhere ∧ right.Everywhere
  | .negate e => p (.negate e) ∧ e.Everywhere
  | .path absolute steps => p (.path absolute steps) ∧ InSteps steps
  | .filter primary predicates steps =>
    p (.filter primary predicates steps) ∧ primary.Everywhere ∧ InAll predicates ∧ InSteps steps
  | .literal s => p (.literal s)
  | .number x => p (.number x)
  | .call f arguments => p (.call f arguments) ∧ InAll arguments

def InAll : List Expr → Prop
  | [] => True
  | e :: rest => e.Everywhere ∧ InAll rest

def Step.Inside : Step → Prop
  | .mk _ _ predicates => InAll predicates

def InSteps : List Step → Prop
  | [] => True
  | s :: rest => s.Inside ∧ InSteps rest

end

section Imp

variable {p} {q : Expr → Prop}

mutual

/-- A weaker property holds everywhere as well. -/
theorem Expr.Everywhere.imp (hpq : ∀ e, p e → q e) {e : Expr} (h : e.Everywhere p) :
    e.Everywhere q := by
  match e with
  | .binary op left right => exact ⟨hpq _ h.1, h.2.1.imp hpq, h.2.2.imp hpq⟩
  | .negate e => exact ⟨hpq _ h.1, h.2.imp hpq⟩
  | .path absolute steps => exact ⟨hpq _ h.1, inSteps_imp hpq h.2⟩
  | .filter primary predicates steps =>
    exact ⟨hpq _ h.1, h.2.1.imp hpq, inAll_imp hpq h.2.2.1, inSteps_imp hpq h.2.2.2⟩
  | .literal s => exact hpq _ h
  | .number x => exact hpq _ h
  | .call f arguments => exact ⟨hpq _ h.1, inAll_imp hpq h.2⟩

theorem inAll_imp (hpq : ∀ e, p e → q e) {es : List Expr} (h : InAll p es) : InAll q es := by
  match es with
  | [] => trivial
  | e :: rest => exact ⟨h.1.imp hpq, inAll_imp hpq h.2⟩

theorem Step.Inside.imp (hpq : ∀ e, p e → q e) {s : Step} (h : s.Inside p) : s.Inside q := by
  match s with
  | .mk axis test predicates => exact inAll_imp hpq h

theorem inSteps_imp (hpq : ∀ e, p e → q e) {ss : List Step} (h : InSteps p ss) : InSteps q ss := by
  match ss with
  | [] => trivial
  | s :: rest => exact ⟨h.1.imp hpq, inSteps_imp hpq h.2⟩

end

end Imp

/-- Whether a call has as many arguments as its function takes. -/
def Expr.ArityFits : Expr → Prop
  | .call f arguments => f.arity.allows arguments.length = true
  | _ => True

mutual

/-- No call is spelled with arguments that its function does not take. -/
theorem IsExpr.arityFits {c : Layer} {ts : List Token} {e : Expr} (h : IsExpr c ts e) :
    e.Everywhere Expr.ArityFits := by
  match h with
  | .joined layer first others => exact others.arityFits first.arityFits
  | .negate operand => exact ⟨trivial, operand.arityFits⟩
  | .union operand => exact operand.arityFits
  | .root => exact ⟨trivial, trivial⟩
  | .absolute steps => exact ⟨trivial, steps.arityFits⟩
  | .anywhere steps => exact ⟨trivial, trivial, steps.arityFits⟩
  | .relative steps => exact ⟨trivial, steps.arityFits⟩
  | .primary alone => exact alone.arityFits
  | .filtered alone predicates => exact ⟨trivial, alone.arityFits, predicates.arityFits, trivial⟩
  | .followed alone predicates steps =>
    exact ⟨trivial, alone.arityFits, predicates.arityFits, steps.arityFits⟩
  | .followedAnywhere alone predicates steps =>
    exact ⟨trivial, alone.arityFits, predicates.arityFits, trivial, steps.arityFits⟩
  | .bracketed inside => exact inside.arityFits
  | .literal s => trivial
  | .number x => trivial
  | .call f arguments arity => exact ⟨arity, arguments.arityFits⟩

theorem IsChain.arityFits {ops : List BinaryOp} {d : Layer} {e f : Expr} {ts : List Token}
    (h : IsChain ops d e ts f) (left : e.Everywhere Expr.ArityFits) :
    f.Everywhere Expr.ArityFits := by
  match h with
  | .nil => exact left
  | .cons mem right others => exact others.arityFits ⟨trivial, left, right.arityFits⟩

theorem IsSteps.arityFits {ts : List Token} {ss : List Step} (h : IsSteps ts ss) :
    InSteps Expr.ArityFits ss := by
  match h with
  | .one step => exact ⟨step.arityFits, trivial⟩
  | .slash step others => exact ⟨step.arityFits, others.arityFits⟩
  | .doubleSlash step others => exact ⟨step.arityFits, trivial, others.arityFits⟩

theorem IsStep.arityFits {ts : List Token} {s : Step} (h : IsStep ts s) :
    s.Inside Expr.ArityFits := by
  match h with
  | .itself => trivial
  | .parent => trivial
  | .test axis test predicates => exact predicates.arityFits

theorem IsPredicates.arityFits {ts : List Token} {ps : List Expr} (h : IsPredicates ts ps) :
    InAll Expr.ArityFits ps := by
  match h with
  | .nil => trivial
  | .cons inside others => exact ⟨inside.arityFits, others.arityFits⟩

theorem IsArguments.arityFits {ts : List Token} {es : List Expr} (h : IsArguments ts es) :
    InAll Expr.ArityFits es := by
  match h with
  | .nil => trivial
  | .one last => exact ⟨last.arityFits, trivial⟩
  | .cons first others => exact ⟨first.arityFits, others.arityFits⟩

end

/-- What parses calls every function with as many arguments as it takes. -/
theorem arityFits_of_parse {query : String} {e : Expr} (h : Expr.parse query = .ok e) :
    e.Everywhere Expr.ArityFits := by
  obtain ⟨tokens, -, h⟩ := ok_of_bind h
  exact (isExpr_of_ofTokens h).arityFits

end ComputedField.Query
