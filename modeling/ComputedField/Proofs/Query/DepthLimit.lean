import ComputedField.Proofs.Query.Completeness
import ComputedField.Proofs.Query.Depth

/-!
# How deep an accepted query is

The sum of the first `maxDepth` numbers is more than the depth of any query, and no smaller number
is. The deepest queries are sums of stars: the first star of each has one more such sum as its
predicate, and its summands take all levels that are left outside of that.
-/

namespace ComputedField.Query

/-- A reader gets to `rest` with `a`, and so many levels are left. -/
def Yields {α : Type} {n : Nat} (x : Except Error (α × Rest n)) (a : α) (rest : List Token)
    (levels : Nat) : Prop :=
  ∃ r, x = .ok (a, r) ∧ r.tokens = rest ∧ r.levels = levels

section Yields

variable {α β : Type} {m n left levels : Nat} {a : α} {b : β} {rest after : List Token}

theorem yields_ok (r : Rest n) : Yields (.ok (a, r)) a r.tokens r.levels := ⟨r, rfl, rfl, rfl⟩

theorem yields_bind {x : Except Error (α × Rest m)} {f : α × Rest m → Except Error (β × Rest n)}
    (hx : Yields x a rest levels)
    (hf : ∀ fewer, Yields (f (a, ⟨rest, levels, fewer⟩)) b after left) :
    Yields (x >>= f) b after left := by
  obtain ⟨⟨tokens, inside, fewer⟩, rfl, rfl, rfl⟩ := hx
  exact hf fewer

theorem yields_expect (t : Token) (expected : Expected) (rest : List Token) (levels : Nat) :
    Yields (expect t expected (t :: rest) levels) () rest levels := by
  rw [expect, if_pos rfl]
  exact yields_ok _

end Yields

def summands : Nat → List Token
  | 0 => []
  | n + 1 => .operator (.arith .add) :: .star :: summands n

/-- Sums of stars, from the outermost: each number counts what is added to a star, and the next sum is
the predicate of that star. -/
def sumTokens : List Nat → List Token
  | [] => [.star]
  | n :: inside => .star :: .openBracket :: (sumTokens inside ++ .closeBracket :: summands n)

def Expr.star (predicates : List Expr) : Expr := .path false [.mk .child .any predicates]

def Expr.plusStars (e : Expr) : Nat → Expr
  | 0 => e
  | n + 1 => plusStars (.binary (.arith .add) e (.star [])) n

def Expr.sums : List Nat → Expr
  | [] => .star []
  | n :: inside => (Expr.star [sums inside]).plusStars n

/-- Whether the sums can be read with so many levels. -/
def Fits : (levels : Nat) → (sums : List Nat) → Prop
  | 0, _ => False
  | _ + 1, [] => True
  | levels + 1, n :: inside => n ≤ levels ∧ Fits levels inside

section Depth

@[simp] theorem depth_star_nil : (Expr.star []).depth = 0 := rfl

@[simp] theorem depth_star_singleton (e : Expr) : (Expr.star [e]).depth = e.depth + 1 := by
  simp [Expr.star, Expr.depth, stepsDepth, Step.depth, innerDepth]

@[simp] theorem depth_plusStars (e : Expr) (n : Nat) : (e.plusStars n).depth = e.depth + n := by
  induction n generalizing e with
  | zero => rfl
  | succ n ih =>
    rw [Expr.plusStars, ih, Expr.depth, depth_star_nil, Nat.max_zero]
    omega

@[simp] theorem depth_sums_cons (n : Nat) (inside : List Nat) :
    (Expr.sums (n :: inside)).depth = (Expr.sums inside).depth + 1 + n := by
  rw [Expr.sums, depth_plusStars, depth_star_singleton]

end Depth

section Reading

variable {inner operand : Parser Expr} {rest : List Token} {levels : Nat}

theorem ends_summands (h : Ends 4 rest) (n : Nat) : Ends 5 (summands n ++ rest) := by
  cases n with
  | zero => exact h.mono (by decide)
  | succ n => exact ends_cons rfl _

theorem yields_predicates_nil (h : Ends 5 rest) (levels : Nat) :
    Yields (predicates inner rest levels) [] rest levels := by
  rw [predicates]
  · exact yields_ok (.same rest levels)
  · exact ne_cons_of_head?_ne (h.head?_ne rfl)

theorem yields_predicates_singleton {tokens : List Token} {e : Expr} {levels : Nat}
    (hinside : Yields (inner tokens levels) e (.closeBracket :: rest) levels) (h : Ends 5 rest) :
    Yields (predicates inner (.openBracket :: tokens) levels) [e] rest levels := by
  rw [predicates]
  refine yields_bind hinside fun fewer => ?_
  refine yields_bind (yields_expect _ _ rest levels) fun fewer => ?_
  exact yields_bind (yields_predicates_nil h levels) fun fewer => yields_ok _

/-- A star with its predicates is a path of one step. -/
theorem yields_path {tokens : List Token} {ps : List Expr}
    (hps : Yields (predicates inner tokens levels) ps rest levels) (h : Ends 5 rest) :
    Yields (path inner (.star :: tokens) levels) (.star ps) rest levels := by
  have hstep : Yields (step inner (.star :: tokens) levels) (.mk .child .any ps) rest levels := by
    refine yields_bind (yields_ok (.same (.star :: tokens) levels)) fun fewer => ?_
    refine yields_bind (yields_ok ⟨tokens, levels, Nat.lt_succ_self _⟩) fun fewer => ?_
    exact yields_bind hps fun fewer => yields_ok _
  have hafter : Yields (stepsAfter inner rest levels) [] rest levels := by
    rw [stepsAfter]
    · exact yields_ok (.same rest levels)
    · exact ne_cons_of_head?_ne (h.head?_ne rfl)
    · exact ne_cons_of_head?_ne (h.head?_ne rfl)
  have hsteps : Yields (steps inner (.star :: tokens) levels) [.mk .child .any ps] rest levels :=
    yields_bind hstep fun fewer => yields_bind hafter fun fewer => yields_ok _
  exact yields_bind hsteps fun fewer => yields_ok _

/-- A chain in which no operator follows the first operand. -/
theorem yields_chain {rank : Nat} {tokens : List Token} {left : Nat} {e : Expr} (h : Ends rank rest)
    (hfirst : Yields (operand tokens levels) e rest left) :
    Yields (chain rank operand tokens levels) e rest left := by
  refine yields_bind hfirst fun fewer => ?_
  dsimp only
  rw [chainAfter_of_operatorAt? h.operatorAt?]
  exact yields_ok _

theorem yields_product {tokens : List Token} {ps : List Expr}
    (hps : Yields (predicates inner tokens levels) ps rest levels) (h : Ends 5 rest) :
    Yields (chain 5 (unary (chain BinaryOp.union.rank (path inner))) (.star :: tokens) levels)
      (.star ps) rest levels :=
  yields_chain h (yields_chain (h.mono (by decide)) (yields_path hps h))

/-- Each summand uses up a level. -/
theorem yields_summands (h : Ends 4 rest)
    (hoperand : ∀ tokens levels, Ends 5 tokens →
      Yields (operand (.star :: tokens) levels) (.star []) tokens levels)
    (e : Expr) (n : Nat) :
    Yields (chainAfter 4 operand e (summands n ++ rest) (levels + n)) (e.plusStars n) rest levels := by
  induction n generalizing e with
  | zero =>
    rw [summands, List.nil_append, chainAfter_of_operatorAt? h.operatorAt?]
    exact yields_ok _
  | succ n ih =>
    rw [summands, List.cons_append, ← Nat.add_assoc, chainAfter.eq_4 _ _ _ _ _ _ _ rfl]
    refine yields_bind (hoperand _ _ (ends_summands h n)) fun fewer => ?_
    exact yields_bind (ih _) fun fewer => yields_ok _

/-- A sum is read if there are levels for its operators, and leaves the others. -/
theorem yields_operators {tokens : List Token} {ps : List Expr} {n : Nat} (h : Ends 0 rest)
    (hps : Yields (predicates inner tokens (levels + n)) ps (summands n ++ rest) (levels + n)) :
    Yields (operators inner (.star :: tokens) (levels + n)) ((Expr.star ps).plusStars n) rest
      levels := by
  have hsum : Ends 4 rest := h.mono (by decide)
  have hchain : Yields (chain 4 (chain 5 (unary (chain BinaryOp.union.rank (path inner))))
      (.star :: tokens) (levels + n)) ((Expr.star ps).plusStars n) rest levels := by
    refine yields_bind (yields_product hps (ends_summands hsum n)) fun fewer => ?_
    refine yields_bind (yields_summands hsum (fun tokens levels htokens => ?_) _ n)
      fun fewer => yields_ok _
    exact yields_product (yields_predicates_nil htokens levels) htokens
  have horder := yields_chain (h.mono (Nat.zero_le 3)) hchain
  have hequality := yields_chain (h.mono (Nat.zero_le 2)) horder
  exact yields_chain h (yields_chain (h.mono (by decide)) hequality)

/-- Sums inside each other are read as long as the levels last. -/
theorem yields_sums {ns : List Nat} (hfits : Fits levels ns) (h : Ends 0 rest) :
    Yields (expression levels (sumTokens ns ++ rest) levels) (.sums ns) rest levels := by
  induction ns generalizing levels rest with
  | nil =>
    cases levels with
    | zero => cases hfits
    | succ levels =>
      have hps : Yields (predicates (expression levels) rest levels) [] rest levels :=
        yields_predicates_nil (h.mono (by decide)) levels
      exact yields_bind (yields_operators (n := 0) h hps) fun fewer => yields_ok _
  | cons n inside ih =>
    cases levels with
    | zero => cases hfits
    | succ levels =>
      obtain ⟨k, rfl⟩ := Nat.exists_eq_add_of_le' hfits.1
      have hinside := ih hfits.2 (ends_cons (t := .closeBracket) rfl (summands n ++ rest))
      have hps := yields_predicates_singleton hinside (ends_summands (h.mono (by decide)) n)
      rw [sumTokens, List.cons_append, List.cons_append, List.append_assoc, List.cons_append]
      exact yields_bind (yields_operators h hps) fun fewer => yields_ok _

theorem ofTokens_sumTokens {ns : List Nat} (h : Fits maxDepth ns) :
    Expr.ofTokens (sumTokens ns) = .ok (.sums ns) := by
  have hsums := yields_sums h (ends_nil 0)
  rw [List.append_nil] at hsums
  obtain ⟨r, hr, hrest, -⟩ := hsums
  rw [Expr.ofTokens, hr]
  exact if_pos (List.isEmpty_iff.mpr hrest)

end Reading

section Text

def summandsText : Nat → List Char
  | 0 => []
  | n + 1 => '+' :: '*' :: summandsText n

def sumText : List Nat → List Char
  | [] => ['*']
  | n :: inside => '*' :: '[' :: (sumText inside ++ ']' :: summandsText n)

def sumQuery (ns : List Nat) : String := String.ofList (sumText ns)

variable {before : Option Token} {rest : List Char} {ts : List Token}

/-- A star where an operand has to stand. -/
theorem tokensAfter_star (h : before.any (!·.expectsOperand) = false) (rest : List Char) :
    tokensAfter before ('*' :: rest) = (tokensAfter (some .star) rest).map (.star :: ·) := by
  refine tokensAfter_cons (by decide) ?_
  rw [h]
  rfl

/-- What the text is behind any operand. -/
def Follows (text : List Char) (ts : List Token) : Prop :=
  ∀ before : Option Token, before.any (!·.expectsOperand) = true → tokensAfter before text = .ok ts

theorem Follows.closeBracket (h : Follows rest ts) :
    Follows (']' :: rest) (.closeBracket :: ts) := by
  intro before _
  rw [tokensAfter_cons (t := .closeBracket) (by decide) rfl, h _ rfl]
  rfl

theorem Follows.summands (h : Follows rest ts) (n : Nat) :
    Follows (summandsText n ++ rest) (summands n ++ ts) := by
  induction n with
  | zero => exact h
  | succ n ih =>
    intro before _
    rw [summandsText, List.cons_append, List.cons_append,
      tokensAfter_cons (t := .operator (.arith .add)) (by decide) rfl, tokensAfter_star rfl, ih _ rfl]
    rfl

/-- The text of sums has their tokens. -/
theorem Follows.sumText (h : Follows rest ts) (ns : List Nat)
    (hbefore : before.any (!·.expectsOperand) = false) :
    tokensAfter before (sumText ns ++ rest) = .ok (sumTokens ns ++ ts) := by
  induction ns generalizing before rest ts with
  | nil =>
    rw [Query.sumText, List.cons_append, tokensAfter_star hbefore, List.nil_append, h _ rfl]
    rfl
  | cons n inside ih =>
    have hoperand : (some Token.openBracket).any (!·.expectsOperand) = false := rfl
    have hinside := ih (h.summands n).closeBracket hoperand
    rw [Query.sumText, List.cons_append, tokensAfter_star hbefore, List.cons_append,
      tokensAfter_cons (t := .openBracket) (by decide) rfl, List.append_assoc, List.cons_append,
      hinside]
    simp only [Except.map, sumTokens, List.cons_append, List.append_assoc]

theorem tokenize_sumQuery (ns : List Nat) : tokenize (sumQuery ns) = .ok (sumTokens ns) := by
  have hnil : Follows [] [] := fun before _ => by rw [tokensAfter]
  have hscan : tokensAfter none (sumText ns ++ []) = .ok (sumTokens ns ++ []) := hnil.sumText ns rfl
  rw [List.append_nil, List.append_nil] at hscan
  rw [tokenize, sumQuery, String.toList_ofList, hscan]
  rfl

theorem parse_sumQuery {ns : List Nat} (h : Fits maxDepth ns) :
    Expr.parse (sumQuery ns) = .ok (.sums ns) := by
  rw [parse_of_tokenize (tokenize_sumQuery ns), ofTokens_sumTokens h]

end Text

def deepest : Nat → List Nat
  | 0 => []
  | k + 1 => (k + 1) :: deepest k

theorem fits_deepest (k : Nat) : Fits (k + 1) (deepest k) := by
  induction k with
  | zero => trivial
  | succ k ih => exact ⟨Nat.le_refl _, ih⟩

theorem depth_deepest (k : Nat) : (Expr.sums (deepest k)).depth + 1 = triangle (k + 1) := by
  induction k with
  | zero => rfl
  | succ k ih =>
    rw [deepest, depth_sums_cons, triangle, ← ih]
    omega

/-- The bound on the depth of queries is reached. -/
theorem exists_deepest : ∃ query e, Expr.parse query = .ok e ∧ e.depth + 1 = triangle maxDepth :=
  ⟨_, _, parse_sumQuery (fits_deepest 127), depth_deepest 127⟩

/-- The depth of a query is less than the sum of its levels, and less than their number if no operator
follows a closing bracket. -/
theorem depth_lt_of_parse {query : String} {e : Expr} (h : Expr.parse query = .ok e) :
    e.depth < triangle maxDepth ∧
      ∀ tokens, tokenize query = .ok tokens → Settled tokens → e.depth < maxDepth := by
  obtain ⟨tokens, ht, hparse⟩ := ok_of_bind h
  obtain ⟨⟨f, r⟩, hr, hparse⟩ := ok_of_bind hparse
  dsimp only at hparse
  split at hparse
  · rename_i hempty
    cases hparse
    obtain ⟨-, used, hused, hdepth, hsettled⟩ := reads_expression maxDepth _ _ _ _ hr
    rw [List.isEmpty_iff.mp hempty, List.append_nil] at hused
    subst hused
    refine ⟨hdepth, fun others ht' hs => ?_⟩
    rw [ht] at ht'
    cases ht'
    exact hsettled hs
  · cases hparse

/-- A call and a predicate within each other, to the right of all operators. -/
theorem depth_lt_of_parse_count :
    ∃ e tokens, Expr.parse "-a+count(b[c])" = .ok e ∧ tokenize "-a+count(b[c])" = .ok tokens ∧
      Settled tokens ∧ e.depth = 3 ∧ e.depth < triangle maxDepth ∧ e.depth < maxDepth := by
  have hscan : tokensAfter none "-a+count(b[c])".toList =
      .ok [.operator (.arith .sub), .name "a", .operator (.arith .add), .name "count", .openParen,
        .name "b", .openBracket, .name "c", .closeBracket, .closeParen] := by
    cbv
  have htokens : tokenize "-a+count(b[c])" =
      .ok [.operator (.arith .sub), .name "a", .operator (.arith .add), .name "count", .openParen,
        .name "b", .openBracket, .name "c", .closeBracket, .closeParen] := by
    rw [tokenize, hscan]
    rfl
  have hparse : Expr.parse "-a+count(b[c])" =
      .ok (.binary (.arith .add) (.negate (.path false [.mk .child (.name "a") []]))
        (.call .count [.path false [.mk .child (.name "b")
          [.path false [.mk .child (.name "c") []]]]])) := by
    rw [parse_of_tokenize htokens]
    cbv
  have hsettled : Settled [.operator (.arith .sub), .name "a", .operator (.arith .add),
      .name "count", .openParen, .name "b", .openBracket, .name "c", .closeBracket, .closeParen] := by
    simp [Settled, Token.closes, Token.isOperator]
  obtain ⟨hdepth, hlevels⟩ := depth_lt_of_parse hparse
  exact ⟨_, _, hparse, htokens, hsettled, rfl, hdepth, hlevels _ htokens hsettled⟩

/-- A star under two predicates with 127 summands behind it: the summands and the predicates are more
than the levels of a query. -/
theorem maxDepth_lt_depth_sum : ∃ e, Expr.parse (sumQuery [127, 0]) = .ok e ∧ maxDepth < e.depth := by
  refine ⟨_, parse_sumQuery (by simp [Fits, maxDepth]), ?_⟩
  simp [maxDepth]

end ComputedField.Query
