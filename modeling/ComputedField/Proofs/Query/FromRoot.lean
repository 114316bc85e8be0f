import ComputedField.Query.Eval

/-!
# Paths from the root

A query is evaluated for the root of a document, so that outside predicates a path means the same
whether it is absolute or not.
-/

namespace ComputedField.Query

open Markup (Document)

mutual

/-- The expression with every path outside predicates made absolute. -/
def Expr.fromRoot : Expr → Expr
  | .binary op left right => .binary op left.fromRoot right.fromRoot
  | .negate e => .negate e.fromRoot
  | .path _ steps => .path true steps
  | .filter primary predicates steps => .filter primary.fromRoot predicates steps
  | .literal s => .literal s
  | .number x => .number x
  | .call f arguments => .call f (fromRootAll arguments)

def fromRootAll : List Expr → List Expr
  | [] => []
  | e :: rest => e.fromRoot :: fromRootAll rest

end

mutual

/-- For the root it does not matter which paths are absolute. -/
theorem eval_fromRoot (d : Document) (e : Expr) (c : Context) (hc : c.node = Document.root) :
    e.fromRoot.eval d c = e.eval d c := by
  match e with
  | .binary .or left right | .binary .and left right | .binary (.compare op) left right
  | .binary (.arith op) left right | .binary .union left right =>
    simp only [Expr.fromRoot, Expr.eval, eval_fromRoot d left c hc, eval_fromRoot d right c hc]
  | .negate e => simp only [Expr.fromRoot, Expr.eval, eval_fromRoot d e c hc]
  | .path absolute steps => cases absolute <;> simp [Expr.fromRoot, Expr.eval, hc]
  | .filter primary predicates steps =>
    simp only [Expr.fromRoot, Expr.eval, eval_fromRoot d primary c hc]
  | .literal s => rfl
  | .number x => rfl
  | .call f arguments => simp only [Expr.fromRoot, Expr.eval, evalAll_fromRootAll d arguments c hc]

theorem evalAll_fromRootAll (d : Document) (es : List Expr) (c : Context)
    (hc : c.node = Document.root) : evalAll d (fromRootAll es) c = evalAll d es c := by
  match es with
  | [] => rfl
  | e :: rest =>
    simp only [fromRootAll, evalAll, eval_fromRoot d e c hc, evalAll_fromRootAll d rest c hc]

end

/-- So deep inside predicates, two expressions are the same, and at no depth they differ in more than
which paths are absolute. -/
def Alike (brackets : Nat) (e f : Expr) : Prop :=
  e.fromRoot = f.fromRoot ∧ (0 < brackets → e = f)

def AlikeAll (brackets : Nat) (es fs : List Expr) : Prop :=
  fromRootAll es = fromRootAll fs ∧ (0 < brackets → es = fs)

section Alike

variable {k : Nat} {e f g h : Expr} {es fs : List Expr}

theorem Alike.refl (k : Nat) (e : Expr) : Alike k e e := ⟨rfl, fun _ => rfl⟩

theorem AlikeAll.refl (k : Nat) (es : List Expr) : AlikeAll k es es := ⟨rfl, fun _ => rfl⟩

theorem Alike.eq (h : Alike (k + 1) e f) : e = f := h.2 (Nat.succ_pos k)

/-- Outside of predicates, paths may differ in being absolute. -/
theorem Alike.path (absolute relative : Bool) (steps : List Step) :
    Alike 0 (.path absolute steps) (.path relative steps) := ⟨rfl, fun h => absurd h (Nat.lt_irrefl 0)⟩

theorem Alike.binary (op : BinaryOp) (hleft : Alike k e f) (hright : Alike k g h) :
    Alike k (.binary op e g) (.binary op f h) := by
  refine ⟨?_, fun hk => by rw [hleft.2 hk, hright.2 hk]⟩
  rw [Expr.fromRoot, Expr.fromRoot, hleft.1, hright.1]

theorem Alike.negate (he : Alike k e f) : Alike k (.negate e) (.negate f) := by
  refine ⟨?_, fun hk => by rw [he.2 hk]⟩
  rw [Expr.fromRoot, Expr.fromRoot, he.1]

theorem Alike.filter (predicates : List Expr) (steps : List Step) (he : Alike k e f) :
    Alike k (.filter e predicates steps) (.filter f predicates steps) := by
  refine ⟨?_, fun hk => by rw [he.2 hk]⟩
  rw [Expr.fromRoot, Expr.fromRoot, he.1]

theorem AlikeAll.call (function : Function) (h : AlikeAll k es fs) :
    Alike k (.call function es) (.call function fs) := by
  refine ⟨?_, fun hk => by rw [h.2 hk]⟩
  rw [Expr.fromRoot, Expr.fromRoot, h.1]

theorem Alike.cons (he : Alike k e f) (hes : AlikeAll k es fs) :
    AlikeAll k (e :: es) (f :: fs) := by
  refine ⟨?_, fun hk => by rw [he.2 hk, hes.2 hk]⟩
  rw [fromRootAll, fromRootAll, he.1, hes.1]

theorem length_fromRootAll (es : List Expr) : (fromRootAll es).length = es.length := by
  induction es with
  | nil => rfl
  | cons e rest ih => exact congrArg (· + 1) ih

theorem AlikeAll.length_eq (h : AlikeAll k es fs) : es.length = fs.length := by
  rw [← length_fromRootAll, h.1, length_fromRootAll]

end Alike

end ComputedField.Query
