import ComputedField.Query.Token

/-!
# The grammar of queries

Which tokens spell which expression, said without a reader. Expressions fall into layers, from `or`
to unions; in each layer operands of the next one stand between operators, and the operators take
what is to their left as a whole. Steps, predicates and arguments are lists of their own.
-/

namespace ComputedField.Query

/-- The layers of expressions, from the loosest operators to none at all. -/
inductive Layer where
  | or
  | and
  | equality
  | order
  | sum
  | product
  | unary
  | union
  | path
  | primary
  deriving DecidableEq, Repr

/-- The layers that join operands of the next layer by the given operators. -/
inductive Layer.Joins : Layer → List BinaryOp → Layer → Prop where
  | or : Joins .or [.or] .and
  | and : Joins .and [.and] .equality
  | equality : Joins .equality [.compare .eq, .compare .ne] .order
  | order : Joins .order [.compare .lt, .compare .le, .compare .gt, .compare .ge] .sum
  | sum : Joins .sum [.arith .add, .arith .sub] .product
  | product : Joins .product [.arith .mul, .arith .div, .arith .mod] .unary
  | union : Joins .union [.union] .path

/-- An axis as it is written; the child axis need not be. -/
inductive IsAxis : List Token → Axis → Prop where
  | child : IsAxis [] .child
  | sign : IsAxis [.at] .attribute
  | named (a : Axis) : IsAxis [.name a.name, .doubleColon] a

inductive IsTest : List Token → NodeTest → Prop where
  | any : IsTest [.star] .any
  | name (word : String) : IsTest [.name word] (.name word)
  | text : IsTest [.name "text", .openParen, .closeParen] .text
  | node : IsTest [.name "node", .openParen, .closeParen] .node

mutual

/-- The tokens spell the expression, which belongs to the layer. -/
inductive IsExpr : Layer → List Token → Expr → Prop where
  | joined {c d : Layer} {ops : List BinaryOp} {ts us : List Token} {e f : Expr}
      (layer : c.Joins ops d) (first : IsExpr d ts e) (others : IsChain ops d e us f) :
      IsExpr c (ts ++ us) f
  | negate {ts : List Token} {e : Expr} (operand : IsExpr .unary ts e) :
      IsExpr .unary (.operator (.arith .sub) :: ts) (.negate e)
  | union {ts : List Token} {e : Expr} (operand : IsExpr .union ts e) : IsExpr .unary ts e
  | root : IsExpr .path [.slash] (.path true [])
  | absolute {ts : List Token} {ss : List Step} (steps : IsSteps ts ss) :
      IsExpr .path (.slash :: ts) (.path true ss)
  | anywhere {ts : List Token} {ss : List Step} (steps : IsSteps ts ss) :
      IsExpr .path (.doubleSlash :: ts) (.path true (.anywhereBelow :: ss))
  | relative {ts : List Token} {ss : List Step} (steps : IsSteps ts ss) :
      IsExpr .path ts (.path false ss)
  | primary {ts : List Token} {e : Expr} (alone : IsExpr .primary ts e) : IsExpr .path ts e
  | filtered {ts us : List Token} {e p : Expr} {ps : List Expr} (primary : IsExpr .primary ts e)
      (predicates : IsPredicates us (p :: ps)) :
      IsExpr .path (ts ++ us) (.filter e (p :: ps) [])
  | followed {ts us vs : List Token} {e : Expr} {ps : List Expr} {ss : List Step}
      (primary : IsExpr .primary ts e) (predicates : IsPredicates us ps) (steps : IsSteps vs ss) :
      IsExpr .path (ts ++ (us ++ .slash :: vs)) (.filter e ps ss)
  | followedAnywhere {ts us vs : List Token} {e : Expr} {ps : List Expr} {ss : List Step}
      (primary : IsExpr .primary ts e) (predicates : IsPredicates us ps) (steps : IsSteps vs ss) :
      IsExpr .path (ts ++ (us ++ .doubleSlash :: vs)) (.filter e ps (.anywhereBelow :: ss))
  | bracketed {ts : List Token} {e : Expr} (inside : IsExpr .or ts e) :
      IsExpr .primary (.openParen :: (ts ++ [.closeParen])) e
  | literal (s : String) : IsExpr .primary [.literal s] (.literal s)
  | number (x : Float) : IsExpr .primary [.number x] (.number x)
  | call {ts : List Token} {es : List Expr} (f : Function) (arguments : IsArguments ts es)
      (arity : f.arity.allows es.length = true) :
      IsExpr .primary (.name f.spelling :: .openParen :: (ts ++ [.closeParen])) (.call f es)

/-- Operators and operands that make `f` when `e` is taken to stand to their left. -/
inductive IsChain : List BinaryOp → Layer → Expr → List Token → Expr → Prop where
  | nil {ops : List BinaryOp} {d : Layer} {e : Expr} : IsChain ops d e [] e
  | cons {ops : List BinaryOp} {d : Layer} {op : BinaryOp} {ts us : List Token} {e f g : Expr}
      (mem : op ∈ ops) (right : IsExpr d ts f) (others : IsChain ops d (.binary op e f) us g) :
      IsChain ops d e (.operator op :: (ts ++ us)) g

inductive IsSteps : List Token → List Step → Prop where
  | one {ts : List Token} {s : Step} (step : IsStep ts s) : IsSteps ts [s]
  | slash {ts us : List Token} {s : Step} {ss : List Step} (step : IsStep ts s)
      (others : IsSteps us ss) : IsSteps (ts ++ .slash :: us) (s :: ss)
  | doubleSlash {ts us : List Token} {s : Step} {ss : List Step} (step : IsStep ts s)
      (others : IsSteps us ss) : IsSteps (ts ++ .doubleSlash :: us) (s :: .anywhereBelow :: ss)

inductive IsStep : List Token → Step → Prop where
  | itself : IsStep [.dot] (.mk .itself .node [])
  | parent : IsStep [.doubleDot] (.mk .parent .node [])
  | test {ts us vs : List Token} {a : Axis} {t : NodeTest} {ps : List Expr} (axis : IsAxis ts a)
      (test : IsTest us t) (predicates : IsPredicates vs ps) :
      IsStep (ts ++ (us ++ vs)) (.mk a t ps)

inductive IsPredicates : List Token → List Expr → Prop where
  | nil : IsPredicates [] []
  | cons {ts us : List Token} {e : Expr} {ps : List Expr} (inside : IsExpr .or ts e)
      (others : IsPredicates us ps) :
      IsPredicates (.openBracket :: (ts ++ .closeBracket :: us)) (e :: ps)

inductive IsArguments : List Token → List Expr → Prop where
  | nil : IsArguments [] []
  | one {ts : List Token} {e : Expr} (last : IsExpr .or ts e) : IsArguments ts [e]
  | cons {ts us : List Token} {e f : Expr} {es : List Expr} (first : IsExpr .or ts e)
      (others : IsArguments us (f :: es)) : IsArguments (ts ++ .comma :: us) (e :: f :: es)

end

theorem IsSteps.isEmpty_eq_false {ts : List Token} {ss : List Step} (h : IsSteps ts ss) :
    ss.isEmpty = false := by
  cases h <;> rfl

end ComputedField.Query
