import ComputedField.Proofs.Fallible
import ComputedField.Proofs.Query.Grammar
import ComputedField.Query.Parse

/-!
# What a reader takes is in the grammar

Each reader takes tokens from the front that spell what it returns. The readers of the layers differ
in nothing but the rank of their operators, so one statement covers them; an expression in brackets
is read by a reader of which the same is assumed, and the depth carries the induction.
-/

namespace ComputedField.Query

namespace Layer

def rank : Layer → Nat
  | .or => 0
  | .and => 1
  | .equality => 2
  | .order => 3
  | .sum => 4
  | .product => 5
  | .unary => 6
  | .union => 7
  | .path => 8
  | .primary => 9

/-- The reader of a layer, given the one for expressions in brackets. -/
def reader (inner : Parser Expr) : Layer → Parser Expr
  | .primary => Query.primary inner
  | .path => Query.path inner
  | .union => chain BinaryOp.union.rank (Query.path inner)
  | c => ([0, 1, 2, 3, 4, 5].drop c.rank).foldr chain
      (Query.unary (chain BinaryOp.union.rank (Query.path inner)))

variable {c d : Layer} {ops : List BinaryOp}

theorem Joins.reader_eq (h : c.Joins ops d) (inner : Parser Expr) :
    c.reader inner = chain c.rank (d.reader inner) := by
  cases h <;> rfl

theorem Joins.mem_iff (h : c.Joins ops d) (op : BinaryOp) : op ∈ ops ↔ op.rank = c.rank := by
  cases op with
  | compare op => cases h <;> cases op <;> decide
  | arith op => cases h <;> cases op <;> decide
  | or => cases h <;> decide
  | and => cases h <;> decide
  | union => cases h <;> decide

theorem Joins.rank_succ (h : c.Joins ops d) : d.rank = c.rank + 1 := by
  cases h <;> rfl

end Layer

@[simp] theorem Rest.tokens_widen {m n : Nat} (r : Rest m) (h : m ≤ n) :
    (r.widen h).tokens = r.tokens := rfl

/-- What a reader takes from the front is a phrase for what it returns. -/
def Spells {α : Type} {bound : List Token → Nat}
    (reader : (tokens : List Token) → Nat → Except Error (α × Rest (bound tokens)))
    (phrase : List Token → α → Prop) : Prop :=
  ∀ tokens levels a r, reader tokens levels = .ok (a, r) →
    ∃ used, tokens = used ++ r.tokens ∧ phrase used a

/-- A token that is expected is read and no other. -/
theorem spells_expect (t : Token) (expected : Expected) :
    Spells (expect t expected) fun used _ => used = [t] := by
  intro tokens levels a r h
  cases tokens with
  | nil => cases h
  | cons u rest =>
    simp only [expect] at h
    split at h
    · rename_i hu
      cases h
      exact ⟨[t], by simp [hu], rfl⟩
    · cases h

section Operators

variable {rank : Nat} {ops : List BinaryOp} {d : Layer} {operand : Parser Expr}

/-- An operator is found if it comes next and has the rank. -/
theorem operatorAt?_eq_some {t : Token} {rest : List Token} {op : BinaryOp}
    (h : operatorAt? rank (t :: rest) = some op) : t = .operator op ∧ op.rank = rank := by
  unfold operatorAt? at h
  split at h
  · rename_i heq
    cases heq
    split at h
    · rename_i hr
      cases h
      exact ⟨rfl, hr⟩
    · cases h
  · cases h

/-- Where no operator of the rank comes next, a chain is at its end. -/
theorem chainAfter_of_operatorAt? {tokens : List Token} (h : operatorAt? rank tokens = none) (e : Expr)
    (levels : Nat) : chainAfter rank operand e tokens levels = .ok (e, .same tokens levels) := by
  cases tokens with
  | nil => rw [chainAfter]
  | cons t rest =>
    rw [chainAfter]
    exact h

/-- A chain is joined from left to right as it is read. -/
theorem spells_chainAfter (hops : ∀ op, op ∈ ops ↔ op.rank = rank)
    (h : Spells operand (IsExpr d)) (left : Expr) :
    Spells (chainAfter rank operand left) (IsChain ops d left) := by
  intro tokens levels a r hr
  fun_induction chainAfter rank operand left tokens levels with
  | case1 left levels =>
    cases hr
    exact ⟨[], rfl, .nil⟩
  | case2 left t rest levels hop =>
    cases hr
    exact ⟨[], rfl, .nil⟩
  | case3 left t rest op hop => cases hr
  | case4 left t rest op levels hop ih =>
    obtain ⟨rfl, hrank⟩ := operatorAt?_eq_some hop
    obtain ⟨⟨right, q⟩, hq, hr⟩ := ok_of_bind hr
    obtain ⟨⟨e, z⟩, hz, hr⟩ := ok_of_bind hr
    cases hr
    obtain ⟨used, hused, hright⟩ := h _ _ _ _ hq
    obtain ⟨others, hothers, hchain⟩ := ih _ _ _ hz
    refine ⟨.operator op :: (used ++ others), ?_, .cons ((hops op).mpr hrank) hright hchain⟩
    simp [hused, hothers]

/-- A layer is spelled by operands of the next one. -/
theorem spells_joined {c : Layer} {inner : Parser Expr} (layer : c.Joins ops d)
    (h : Spells (d.reader inner) (IsExpr d)) : Spells (c.reader inner) (IsExpr c) := by
  intro tokens levels a r hr
  rw [layer.reader_eq] at hr
  obtain ⟨⟨left, q⟩, hq, hr⟩ := ok_of_bind hr
  obtain ⟨⟨e, z⟩, hz, hr⟩ := ok_of_bind hr
  cases hr
  obtain ⟨used, hused, hleft⟩ := h _ _ _ _ hq
  obtain ⟨others, hothers, hchain⟩ := spells_chainAfter layer.mem_iff h _ _ _ _ _ hz
  exact ⟨used ++ others, by simp [hused, hothers], .joined layer hleft hchain⟩

/-- Minus signs are read one by one in front of an operand. -/
theorem spells_unary (h : Spells operand (IsExpr .union)) :
    Spells (unary operand) (IsExpr .unary) := by
  intro tokens levels a r hr
  fun_induction unary operand tokens levels generalizing a with
  | case1 rest => cases hr
  | case2 rest levels ih =>
    obtain ⟨⟨e, q⟩, hq, hr⟩ := ok_of_bind hr
    cases hr
    obtain ⟨used, hused, he⟩ := ih _ _ hq
    exact ⟨_ :: used, by simp [hused], .negate he⟩
  | case3 tokens levels _ =>
    obtain ⟨used, hused, he⟩ := h _ _ _ _ hr
    exact ⟨used, hused, .union he⟩

end Operators

section Steps

variable {inner : Parser Expr}

/-- Each predicate stands between brackets of its own. -/
theorem spells_predicates (h : Spells inner (IsExpr .or)) :
    Spells (predicates inner) IsPredicates := by
  intro tokens levels a r hr
  fun_induction predicates inner tokens levels generalizing a with
  | case1 rest levels ih =>
    obtain ⟨⟨p, q⟩, hq, hr⟩ := ok_of_bind hr
    obtain ⟨⟨_, z⟩, hz, hr⟩ := ok_of_bind hr
    obtain ⟨⟨ps, y⟩, hy, hr⟩ := ok_of_bind hr
    cases hr
    obtain ⟨used, hused, hp⟩ := h _ _ _ _ hq
    obtain ⟨_, hclose, rfl⟩ := spells_expect _ _ _ _ _ _ hz
    obtain ⟨others, hothers, hps⟩ := ih _ _ _ _ hy
    exact ⟨.openBracket :: (used ++ .closeBracket :: others), by simp [hused, hclose, hothers],
      .cons hp hps⟩
  | case2 tokens levels _ =>
    cases hr
    exact ⟨[], rfl, .nil⟩

theorem Axis.name_of_ofName? {word : String} {a : Axis} (h : Axis.ofName? word = some a) :
    a.name = word := by
  simpa using List.find?_some h

theorem Function.spelling_of_ofName? {word : String} {f : Function}
    (h : Function.ofName? word = some f) : f.spelling = word := by
  simpa using List.find?_some h

/-- Without a name the axis is that of the children, which needs no token. -/
theorem spells_axis : Spells axis IsAxis := by
  intro tokens levels a r hr
  fun_cases axis tokens levels with
  | case1 rest levels =>
    cases hr
    exact ⟨[.at], rfl, .sign⟩
  | case2 word rest levels b hb =>
    rw [axis, hb] at hr
    cases hr
    rw [← Axis.name_of_ofName? hb]
    exact ⟨[.name a.name, .doubleColon], rfl, .named a⟩
  | case3 word rest levels hb =>
    rw [axis, hb] at hr
    cases hr
  | case4 tokens levels hat hnamed =>
    rw [axis] at hr
    · cases hr
      exact ⟨[], rfl, .child⟩
    · exact hat
    · exact hnamed

theorem spells_nodeTest : Spells nodeTest IsTest := by
  intro tokens levels a r hr
  fun_cases nodeTest tokens levels with
  | case1 rest levels =>
    cases hr
    exact ⟨[.star], rfl, .any⟩
  | case2 word rest levels hword =>
    rw [nodeTest, if_pos hword] at hr
    obtain ⟨⟨_, q⟩, hq, hr⟩ := ok_of_bind hr
    cases hr
    obtain ⟨_, hclose, rfl⟩ := spells_expect _ _ _ _ _ _ hq
    rcases hword with rfl | rfl
    · exact ⟨[.name "text", .openParen, .closeParen], by simp [hclose], .text⟩
    · exact ⟨[.name "node", .openParen, .closeParen], by simp [hclose], .node⟩
  | case3 word rest levels hword =>
    rw [nodeTest, if_neg hword] at hr
    cases hr
  | case4 word rest levels hrest =>
    rw [nodeTest] at hr
    · cases hr
      exact ⟨[.name word], rfl, .name word⟩
    · exact hrest
  | case5 tokens levels hstar htest hname =>
    rw [nodeTest] at hr
    · cases hr
    · exact hstar
    · exact htest
    · exact hname

theorem spells_step (h : Spells inner (IsExpr .or)) : Spells (step inner) IsStep := by
  intro tokens levels a r hr
  fun_cases step inner tokens levels with
  | case1 rest levels =>
    cases hr
    exact ⟨[.dot], rfl, .itself⟩
  | case2 rest levels =>
    cases hr
    exact ⟨[.doubleDot], rfl, .parent⟩
  | case3 tokens levels hdot hdoubleDot =>
    rw [step] at hr
    · obtain ⟨⟨a, q⟩, hq, hr⟩ := ok_of_bind hr
      obtain ⟨⟨t, z⟩, hz, hr⟩ := ok_of_bind hr
      obtain ⟨⟨ps, y⟩, hy, hr⟩ := ok_of_bind hr
      cases hr
      obtain ⟨ts, hts, ha⟩ := spells_axis _ _ _ _ hq
      obtain ⟨us, hus, ht⟩ := spells_nodeTest _ _ _ _ hz
      obtain ⟨vs, hvs, hps⟩ := spells_predicates h _ _ _ _ hy
      exact ⟨ts ++ (us ++ vs), by simp [hts, hus, hvs], .test ha ht hps⟩
    · exact hdot
    · exact hdoubleDot

/-- Steps with a slash before each of them, as they follow the tokens of a first step. -/
theorem spells_stepsAfter (h : Spells inner (IsExpr .or)) :
    Spells (stepsAfter inner) fun used ss =>
      ∀ ts s, IsStep ts s → IsSteps (ts ++ used) (s :: ss) := by
  intro tokens levels a r hr
  fun_induction stepsAfter inner tokens levels generalizing a with
  | case1 rest levels ih =>
    obtain ⟨⟨first, q⟩, hq, hr⟩ := ok_of_bind hr
    obtain ⟨⟨others, z⟩, hz, hr⟩ := ok_of_bind hr
    cases hr
    obtain ⟨us, hus, hfirst⟩ := spells_step h _ _ _ _ hq
    obtain ⟨vs, hvs, hothers⟩ := ih _ _ _ hz
    exact ⟨.slash :: (us ++ vs), by simp [hus, hvs], fun _ _ hs => .slash hs (hothers _ _ hfirst)⟩
  | case2 rest levels ih =>
    obtain ⟨⟨first, q⟩, hq, hr⟩ := ok_of_bind hr
    obtain ⟨⟨others, z⟩, hz, hr⟩ := ok_of_bind hr
    cases hr
    obtain ⟨us, hus, hfirst⟩ := spells_step h _ _ _ _ hq
    obtain ⟨vs, hvs, hothers⟩ := ih _ _ _ hz
    exact ⟨.doubleSlash :: (us ++ vs), by simp [hus, hvs],
      fun _ _ hs => .doubleSlash hs (hothers _ _ hfirst)⟩
  | case3 tokens levels _ _ =>
    cases hr
    refine ⟨[], rfl, fun ts s hs => ?_⟩
    rw [List.append_nil]
    exact .one hs

/-- Steps are read with their slashes between them. -/
theorem spells_steps (h : Spells inner (IsExpr .or)) : Spells (steps inner) IsSteps := by
  intro tokens levels a r hr
  obtain ⟨⟨first, q⟩, hq, hr⟩ := ok_of_bind hr
  obtain ⟨⟨others, z⟩, hz, hr⟩ := ok_of_bind hr
  cases hr
  obtain ⟨us, hus, hfirst⟩ := spells_step h _ _ _ _ hq
  obtain ⟨vs, hvs, hothers⟩ := spells_stepsAfter h _ _ _ _ hz
  exact ⟨us ++ vs, by simp [hus, hvs], hothers _ _ hfirst⟩

end Steps

section Paths

variable {inner : Parser Expr}

/-- Arguments with a comma before each of them, as they follow the tokens of a first argument. -/
theorem spells_argumentsAfter (h : Spells inner (IsExpr .or)) :
    Spells (argumentsAfter inner) fun used es =>
      ∀ ts e, IsExpr .or ts e → IsArguments (ts ++ used) (e :: es) := by
  intro tokens levels a r hr
  fun_induction argumentsAfter inner tokens levels generalizing a with
  | case1 rest levels ih =>
    obtain ⟨⟨e, q⟩, hq, hr⟩ := ok_of_bind hr
    obtain ⟨⟨es, z⟩, hz, hr⟩ := ok_of_bind hr
    cases hr
    obtain ⟨us, hus, he⟩ := h _ _ _ _ hq
    obtain ⟨vs, hvs, hes⟩ := ih _ _ _ hz
    exact ⟨.comma :: (us ++ vs), by simp [hus, hvs], fun _ _ hf => .cons hf (hes _ _ he)⟩
  | case2 tokens levels _ =>
    cases hr
    refine ⟨[], rfl, fun ts e he => ?_⟩
    rw [List.append_nil]
    exact .one he

theorem spells_arguments (h : Spells inner (IsExpr .or)) :
    Spells (arguments inner) IsArguments := by
  intro tokens levels a r hr
  fun_cases arguments inner tokens levels with
  | case1 rest levels =>
    cases hr
    exact ⟨[], rfl, .nil⟩
  | case2 tokens levels hclose =>
    rw [arguments] at hr
    · obtain ⟨⟨e, q⟩, hq, hr⟩ := ok_of_bind hr
      obtain ⟨⟨es, z⟩, hz, hr⟩ := ok_of_bind hr
      cases hr
      obtain ⟨us, hus, he⟩ := h _ _ _ _ hq
      obtain ⟨vs, hvs, hes⟩ := spells_argumentsAfter h _ _ _ _ hz
      exact ⟨us ++ vs, by simp [hus, hvs], hes _ _ he⟩
    · exact hclose

/-- A call has the name of its function and as many arguments as it takes. -/
theorem spells_call (h : Spells inner (IsExpr .or)) (word : String) :
    Spells (call inner word) fun used e =>
      IsExpr .primary (.name word :: .openParen :: used) e := by
  intro tokens levels a r hr
  unfold call at hr
  split at hr
  · cases hr
  · rename_i f hf
    obtain ⟨⟨es, q⟩, hq, hr⟩ := ok_of_bind hr
    obtain ⟨⟨_, z⟩, hz, hr⟩ := ok_of_bind hr
    obtain ⟨ts, hts, hes⟩ := spells_arguments h _ _ _ _ hq
    obtain ⟨_, hclose, rfl⟩ := spells_expect _ _ _ _ _ _ hz
    dsimp only at hr
    split at hr
    · rename_i harity
      cases hr
      rw [← Function.spelling_of_ofName? hf]
      exact ⟨ts ++ [.closeParen], by simp [hts, hclose], .call f hes harity⟩
    · cases hr

theorem spells_primary (h : Spells inner (IsExpr .or)) :
    Spells (primary inner) (IsExpr .primary) := by
  intro tokens levels a r hr
  fun_cases primary inner tokens levels with
  | case1 rest levels =>
    obtain ⟨⟨e, q⟩, hq, hr⟩ := ok_of_bind hr
    obtain ⟨⟨_, z⟩, hz, hr⟩ := ok_of_bind hr
    cases hr
    obtain ⟨ts, hts, he⟩ := h _ _ _ _ hq
    obtain ⟨_, hclose, rfl⟩ := spells_expect _ _ _ _ _ _ hz
    exact ⟨.openParen :: (ts ++ [.closeParen]), by simp [hts, hclose], .bracketed he⟩
  | case2 s rest levels =>
    cases hr
    exact ⟨[.literal s], rfl, .literal s⟩
  | case3 x rest levels =>
    cases hr
    exact ⟨[.number x], rfl, .number x⟩
  | case4 word rest levels =>
    obtain ⟨⟨e, q⟩, hq, hr⟩ := ok_of_bind hr
    cases hr
    obtain ⟨ts, hts, he⟩ := spells_call h word _ _ _ _ hq
    exact ⟨.name word :: .openParen :: ts, by simp [hts], he⟩
  | case5 tokens levels hparen hliteral hnumber hcall =>
    rw [primary] at hr
    · cases hr
    · exact hparen
    · exact hliteral
    · exact hnumber
    · exact hcall

/-- Steps behind a primary expression, as they turn it into a path. -/
theorem spells_joinedSteps (h : Spells inner (IsExpr .or)) :
    Spells (joinedSteps inner) fun used ss =>
      ∀ ts us e ps, IsExpr .primary ts e → IsPredicates us ps →
        IsExpr .path (ts ++ (us ++ used))
          (if ps.isEmpty && ss.isEmpty then e else .filter e ps ss) := by
  intro tokens levels a r hr
  fun_cases joinedSteps inner tokens levels with
  | case1 rest levels =>
    obtain ⟨⟨ss, q⟩, hq, hr⟩ := ok_of_bind hr
    cases hr
    obtain ⟨vs, hvs, hss⟩ := spells_steps h _ _ _ _ hq
    refine ⟨.slash :: vs, by simp [hvs], fun ts us e ps he hps => ?_⟩
    rw [hss.isEmpty_eq_false, Bool.and_false, if_neg Bool.false_ne_true]
    exact .followed he hps hss
  | case2 rest levels =>
    obtain ⟨⟨ss, q⟩, hq, hr⟩ := ok_of_bind hr
    cases hr
    obtain ⟨vs, hvs, hss⟩ := spells_steps h _ _ _ _ hq
    refine ⟨.doubleSlash :: vs, by simp [hvs], fun ts us e ps he hps => ?_⟩
    rw [List.isEmpty_cons, Bool.and_false, if_neg Bool.false_ne_true]
    exact .followedAnywhere he hps hss
  | case3 tokens levels hslash hdoubleSlash =>
    rw [joinedSteps] at hr
    · cases hr
      refine ⟨[], rfl, fun ts us e ps he hps => ?_⟩
      rw [List.append_nil]
      cases hps with
      | nil =>
        rw [List.append_nil]
        exact .primary he
      | cons hp hps => exact .filtered he (.cons hp hps)
    · exact hslash
    · exact hdoubleSlash

theorem spells_filtered (h : Spells inner (IsExpr .or)) :
    Spells (filtered inner) (IsExpr .path) := by
  intro tokens levels a r hr
  obtain ⟨⟨e, q⟩, hq, hr⟩ := ok_of_bind hr
  obtain ⟨⟨ps, z⟩, hz, hr⟩ := ok_of_bind hr
  obtain ⟨⟨ss, y⟩, hy, hr⟩ := ok_of_bind hr
  cases hr
  obtain ⟨ts, hts, he⟩ := spells_primary h _ _ _ _ hq
  obtain ⟨us, hus, hps⟩ := spells_predicates h _ _ _ _ hz
  obtain ⟨vs, hvs, hss⟩ := spells_joinedSteps h _ _ _ _ hy
  exact ⟨ts ++ (us ++ vs), by simp [hts, hus, hvs], hss _ _ _ _ he hps⟩

/-- A path is read in each of its forms. -/
theorem spells_path (h : Spells inner (IsExpr .or)) : Spells (path inner) (IsExpr .path) := by
  intro tokens levels a r hr
  fun_cases path inner tokens levels with
  | case1 rest levels hstep =>
    rw [path, if_pos hstep] at hr
    obtain ⟨⟨ss, q⟩, hq, hr⟩ := ok_of_bind hr
    cases hr
    obtain ⟨ts, hts, hss⟩ := spells_steps h _ _ _ _ hq
    exact ⟨.slash :: ts, by simp [hts], .absolute hss⟩
  | case2 rest levels hstep =>
    rw [path, if_neg hstep] at hr
    cases hr
    exact ⟨[.slash], rfl, .root⟩
  | case3 rest levels =>
    obtain ⟨⟨ss, q⟩, hq, hr⟩ := ok_of_bind hr
    cases hr
    obtain ⟨ts, hts, hss⟩ := spells_steps h _ _ _ _ hq
    exact ⟨.doubleSlash :: ts, by simp [hts], .anywhere hss⟩
  | case4 tokens levels hslash hdoubleSlash hstep =>
    rw [path, if_pos hstep] at hr
    · obtain ⟨⟨ss, q⟩, hq, hr⟩ := ok_of_bind hr
      cases hr
      obtain ⟨ts, hts, hss⟩ := spells_steps h _ _ _ _ hq
      exact ⟨ts, hts, .relative hss⟩
    · exact hslash
    · exact hdoubleSlash
  | case5 tokens levels hslash hdoubleSlash hstep =>
    rw [path, if_neg hstep] at hr
    · exact spells_filtered h _ _ _ _ hr
    · exact hslash
    · exact hdoubleSlash

end Paths

/-- Layer by layer, what is read is spelled by its tokens. -/
theorem spells_operators {inner : Parser Expr} (h : Spells inner (IsExpr .or)) :
    Spells (operators inner) (IsExpr .or) := by
  have hunion : Spells (Layer.union.reader inner) (IsExpr .union) :=
    spells_joined .union (spells_path h)
  have hproduct : Spells (Layer.product.reader inner) (IsExpr .product) :=
    spells_joined .product (spells_unary hunion)
  have hequality := spells_joined .equality (spells_joined .order (spells_joined .sum hproduct))
  exact spells_joined .or (spells_joined .and hequality)

/-- To whatever depth, a reader of expressions takes an expression of the grammar. -/
theorem spells_expression (depth : Nat) : Spells (expression depth) (IsExpr .or) := by
  induction depth with
  | zero =>
    intro tokens levels a r hr
    cases hr
  | succ depth ih =>
    intro tokens levels a r hr
    cases levels with
    | zero => cases hr
    | succ inside =>
      obtain ⟨⟨e, q⟩, hq, hr⟩ := ok_of_bind hr
      cases hr
      obtain ⟨used, hused, he⟩ := spells_operators ih _ _ _ _ hq
      exact ⟨used, hused, he⟩

end ComputedField.Query
