import ComputedField.Proofs.Query.Soundness

/-!
# Depth of queries

The depth of an expression counts the operators, arguments and predicates that stand within each other.
Levels are used up by operators and given back where brackets close, so what follows a closing bracket
builds on an expression that may be deep already: with so many levels the depth is bounded by the sum of
the first so many numbers. By the levels themselves it is bounded if no operator follows a closing
bracket.
-/

namespace ComputedField.Query

mutual

/-- The most operators, arguments and predicates on the way from the whole to a leaf. -/
def Expr.depth : Expr → Nat
  | .binary _ left right => max left.depth right.depth + 1
  | .negate e => e.depth + 1
  | .path _ steps => stepsDepth steps
  | .filter primary predicates steps =>
    max primary.depth (max (innerDepth predicates) (stepsDepth steps))
  | .literal _ => 0
  | .number _ => 0
  | .call _ arguments => innerDepth arguments

def innerDepth : List Expr → Nat
  | [] => 0
  | e :: rest => max (e.depth + 1) (innerDepth rest)

def Step.depth : Step → Nat
  | .mk _ _ predicates => innerDepth predicates

def stepsDepth : List Step → Nat
  | [] => 0
  | s :: rest => max s.depth (stepsDepth rest)

end

def Token.closes : Token → Bool
  | .closeParen | .closeBracket => true
  | _ => false

def Token.isOperator : Token → Bool
  | .operator _ => true
  | _ => false

/-- Whether no bracket is closed among some tokens. -/
def Unclosed (tokens : List Token) : Prop := ∀ t ∈ tokens, t.closes = false

/-- Whether no operator stands anywhere behind a closing bracket. -/
def Settled (tokens : List Token) : Prop :=
  tokens.Pairwise fun t u => t.closes = true → u.isOperator = false

def triangle : Nat → Nat
  | 0 => 0
  | n + 1 => triangle n + (n + 1)

theorem triangle_mono {m n : Nat} (h : m ≤ n) : triangle m ≤ triangle n := by
  induction h with
  | refl => exact Nat.le_refl _
  | step _ ih => exact Nat.le_trans ih (Nat.le_add_right _ _)

section Tokens

variable {us vs : List Token}

theorem Unclosed.of_sublist (h : Unclosed vs) (hs : us.Sublist vs) : Unclosed us :=
  fun t ht => h t (hs.mem ht)

theorem Settled.of_sublist (h : Settled vs) (hs : us.Sublist vs) : Settled us :=
  List.Pairwise.sublist hs h

theorem Settled.unclosed {op : BinaryOp} (h : Settled (us ++ .operator op :: vs)) : Unclosed us := by
  intro t ht
  cases hclose : t.closes with
  | false => rfl
  | true => cases (List.pairwise_append.mp h).2.2 t ht _ List.mem_cons_self hclose

end Tokens

section Readings

variable {levels left mid m n : Nat} {tokens between rest : List Token}

/-- Reading from some tokens to the rest, as it is done between brackets: all levels are given back, and
the depth of what is read stays in their bounds. -/
structure Enclosed (levels : Nat) (tokens rest : List Token) (left depth : Nat) : Prop where
  left_eq : left = levels
  exists_used : ∃ used, tokens = used ++ rest ∧ depth ≤ triangle levels ∧
    (Settled used → depth ≤ levels)

/-- Reading without an operator of its own: moreover what is read has no depth unless a bracket is
closed. -/
structure Unspent (levels : Nat) (tokens rest : List Token) (left depth : Nat) : Prop where
  left_eq : left = levels
  exists_used : ∃ used, tokens = used ++ rest ∧ depth ≤ triangle levels ∧
    (Settled used → depth ≤ levels) ∧ (Unclosed used → depth = 0)

/-- Reading with operators, which use up levels. -/
structure Spent (levels : Nat) (tokens rest : List Token) (left depth : Nat) : Prop where
  left_le : left ≤ levels
  exists_used : ∃ used, tokens = used ++ rest ∧ depth + left ≤ levels + triangle levels ∧
    (Settled used → depth ≤ levels) ∧ (Unclosed used → depth + left ≤ levels)

theorem Unspent.refl (levels : Nat) (tokens : List Token) : Unspent levels tokens tokens levels 0 :=
  ⟨rfl, [], rfl, Nat.zero_le _, fun _ => Nat.zero_le _, fun _ => rfl⟩

theorem Enclosed.of_le (h : Enclosed levels tokens rest left n) (hm : m ≤ n) :
    Enclosed levels tokens rest left m := by
  obtain ⟨hleft, used, hused, hdepth, hsettled⟩ := h
  exact ⟨hleft, used, hused, Nat.le_trans hm hdepth, fun hs => Nat.le_trans hm (hsettled hs)⟩

theorem Unspent.enclosed (h : Unspent levels tokens rest left m) :
    Enclosed levels tokens rest left m := by
  obtain ⟨hleft, used, hused, hdepth, hsettled, -⟩ := h
  exact ⟨hleft, used, hused, hdepth, hsettled⟩

theorem Unspent.spent (h : Unspent levels tokens rest left m) : Spent levels tokens rest left m := by
  obtain ⟨rfl, used, hused, hdepth, hsettled, hunclosed⟩ := h
  refine ⟨Nat.le_refl _, used, hused, by omega, hsettled, fun hu => ?_⟩
  have := hunclosed hu
  omega

/-- Of what is read one after the other, the deepest counts. -/
theorem Unspent.trans (h : Unspent levels tokens between mid m)
    (k : Unspent mid between rest left n) : Unspent levels tokens rest left (max m n) := by
  obtain ⟨rfl, us, rfl, hm, hsettled, hunclosed⟩ := h
  obtain ⟨rfl, vs, rfl, hn, ksettled, kunclosed⟩ := k
  refine ⟨rfl, us ++ vs, by simp, Nat.max_le.mpr ⟨hm, hn⟩, fun hs => ?_, fun hu => ?_⟩
  · exact Nat.max_le.mpr ⟨hsettled (hs.of_sublist (List.sublist_append_left us vs)),
      ksettled (hs.of_sublist (List.sublist_append_right us vs))⟩
  · rw [hunclosed (hu.of_sublist (List.sublist_append_left us vs)),
      kunclosed (hu.of_sublist (List.sublist_append_right us vs)), Nat.max_self]

theorem Unspent.token (t : Token) (h : Unspent levels tokens rest left m) :
    Unspent levels (t :: tokens) rest left m := by
  obtain ⟨rfl, us, rfl, hm, hsettled, hunclosed⟩ := h
  exact ⟨rfl, t :: us, rfl, hm, fun hs => hsettled (hs.of_sublist (List.sublist_cons_self t us)),
    fun hu => hunclosed (hu.of_sublist (List.sublist_cons_self t us))⟩

theorem Enclosed.token (t : Token) (h : Enclosed levels tokens rest left m) :
    Enclosed levels (t :: tokens) rest left m := by
  obtain ⟨rfl, us, rfl, hm, hsettled⟩ := h
  exact ⟨rfl, t :: us, rfl, hm, fun hs => hsettled (hs.of_sublist (List.sublist_cons_self t us))⟩

theorem Enclosed.trans (h : Enclosed levels tokens between mid m)
    (k : Enclosed mid between rest left n) : Enclosed levels tokens rest left (max m n) := by
  obtain ⟨rfl, us, rfl, hm, hsettled⟩ := h
  obtain ⟨rfl, vs, rfl, hn, ksettled⟩ := k
  refine ⟨rfl, us ++ vs, by simp, Nat.max_le.mpr ⟨hm, hn⟩, fun hs => ?_⟩
  exact Nat.max_le.mpr ⟨hsettled (hs.of_sublist (List.sublist_append_left us vs)),
    ksettled (hs.of_sublist (List.sublist_append_right us vs))⟩

end Readings

/-- What a reader does with tokens and levels, given the depth of what it returns. -/
def Reads {α : Type} {bound : List Token → Nat}
    (outcome : Nat → List Token → List Token → Nat → Nat → Prop)
    (reader : (tokens : List Token) → Nat → Except Error (α × Rest (bound tokens)))
    (depth : α → Nat) : Prop :=
  ∀ tokens levels a r, reader tokens levels = .ok (a, r) →
    outcome levels tokens r.tokens r.levels (depth a)

@[simp] theorem Rest.levels_widen {m n : Nat} (r : Rest m) (h : m ≤ n) :
    (r.widen h).levels = r.levels := rfl

section Brackets

variable {t : Token} {expected : Expected} {levels mid m : Nat} {tokens between : List Token}

theorem unspent_of_expect {r : Rest tokens.length}
    (h : expect t expected tokens levels = .ok ((), r)) :
    tokens = t :: r.tokens ∧ Unspent levels tokens r.tokens r.levels 0 := by
  cases tokens with
  | nil => cases h
  | cons u rest =>
    rw [expect] at h
    split at h
    · rename_i hu
      cases h
      exact ⟨congrArg (· :: rest) hu, .token u (.refl levels rest)⟩
    · cases h

/-- What is closed after a reading between brackets has no operator of its own any more. -/
theorem Enclosed.close (h : Enclosed levels tokens between mid m) {r : Rest between.length}
    (hr : expect t expected between mid = .ok ((), r)) (ht : t.closes = true) :
    Unspent levels tokens r.tokens r.levels m := by
  obtain ⟨hbetween, ⟨hleft, -⟩⟩ := unspent_of_expect hr
  obtain ⟨rfl, us, rfl, hm, hsettled⟩ := h
  refine ⟨hleft, us ++ [t], by rw [List.append_assoc, List.singleton_append, ← hbetween], hm, ?_, ?_⟩
  · exact fun hs => hsettled (hs.of_sublist (List.sublist_append_left us [t]))
  · intro hu
    have hopen := hu t (by simp)
    rw [ht] at hopen
    cases hopen

end Brackets

section Steps

variable {inner : Parser Expr}

theorem reads_axis : Reads Unspent axis fun _ => 0 := by
  intro tokens levels a r hr
  fun_cases axis tokens levels with
  | case1 rest levels =>
    cases hr
    exact .token _ (.refl levels rest)
  | case2 word rest levels b hb =>
    rw [axis, hb] at hr
    cases hr
    exact .token _ (.token _ (.refl levels rest))
  | case3 word rest levels hb =>
    rw [axis, hb] at hr
    cases hr
  | case4 tokens levels hat hnamed =>
    rw [axis] at hr
    · cases hr
      exact .refl levels tokens
    · exact hat
    · exact hnamed

theorem reads_nodeTest : Reads Unspent nodeTest fun _ => 0 := by
  intro tokens levels a r hr
  fun_cases nodeTest tokens levels with
  | case1 rest levels =>
    cases hr
    exact .token _ (.refl levels rest)
  | case2 word rest levels hword =>
    rw [nodeTest, if_pos hword] at hr
    obtain ⟨⟨_, q⟩, hq, hr⟩ := ok_of_bind hr
    cases hr
    exact .token _ (.token _ (unspent_of_expect hq).2)
  | case3 word rest levels hword =>
    rw [nodeTest, if_neg hword] at hr
    cases hr
  | case4 word rest levels hrest =>
    rw [nodeTest] at hr
    · cases hr
      exact .token _ (.refl levels rest)
    · exact hrest
  | case5 tokens levels hstar htest hname =>
    rw [nodeTest] at hr
    · cases hr
    · exact hstar
    · exact htest
    · exact hname

/-- A predicate is read inside brackets, where expressions have levels of their own. -/
theorem reads_predicates (h : Reads Enclosed inner fun e => e.depth + 1) :
    Reads Unspent (predicates inner) innerDepth := by
  intro tokens levels a r hr
  fun_induction predicates inner tokens levels generalizing a with
  | case1 rest levels ih =>
    obtain ⟨⟨p, q⟩, hq, hr⟩ := ok_of_bind hr
    obtain ⟨⟨_, z⟩, hz, hr⟩ := ok_of_bind hr
    obtain ⟨⟨ps, y⟩, hy, hr⟩ := ok_of_bind hr
    cases hr
    exact .token _ (((h _ _ _ _ hq).close hz rfl).trans (ih _ _ _ _ hy))
  | case2 tokens levels _ =>
    cases hr
    exact .refl levels tokens

theorem reads_step (h : Reads Enclosed inner fun e => e.depth + 1) :
    Reads Unspent (step inner) Step.depth := by
  intro tokens levels a r hr
  fun_cases step inner tokens levels with
  | case1 rest levels =>
    cases hr
    exact .token _ (.refl levels rest)
  | case2 rest levels =>
    cases hr
    exact .token _ (.refl levels rest)
  | case3 tokens levels hdot hdoubleDot =>
    rw [step] at hr
    · obtain ⟨⟨a, q⟩, hq, hr⟩ := ok_of_bind hr
      obtain ⟨⟨t, z⟩, hz, hr⟩ := ok_of_bind hr
      obtain ⟨⟨ps, y⟩, hy, hr⟩ := ok_of_bind hr
      cases hr
      have htest := (reads_axis _ _ _ _ hq).trans (reads_nodeTest _ _ _ _ hz)
      simpa [Step.depth] using htest.trans (reads_predicates h _ _ _ _ hy)
    · exact hdot
    · exact hdoubleDot

/-- A step in front of which `//` stands. -/
theorem stepsDepth_anywhereBelow (ss : List Step) :
    stepsDepth (.anywhereBelow :: ss) = stepsDepth ss := Nat.zero_max _

theorem reads_stepsAfter (h : Reads Enclosed inner fun e => e.depth + 1) :
    Reads Unspent (stepsAfter inner) stepsDepth := by
  intro tokens levels a r hr
  fun_induction stepsAfter inner tokens levels generalizing a with
  | case1 rest levels ih =>
    obtain ⟨⟨first, q⟩, hq, hr⟩ := ok_of_bind hr
    obtain ⟨⟨others, z⟩, hz, hr⟩ := ok_of_bind hr
    cases hr
    exact .token _ ((reads_step h _ _ _ _ hq).trans (ih _ _ _ hz))
  | case2 rest levels ih =>
    obtain ⟨⟨first, q⟩, hq, hr⟩ := ok_of_bind hr
    obtain ⟨⟨others, z⟩, hz, hr⟩ := ok_of_bind hr
    cases hr
    rw [stepsDepth_anywhereBelow]
    exact .token _ ((reads_step h _ _ _ _ hq).trans (ih _ _ _ hz))
  | case3 tokens levels _ _ =>
    cases hr
    exact .refl levels tokens

theorem reads_steps (h : Reads Enclosed inner fun e => e.depth + 1) :
    Reads Unspent (steps inner) stepsDepth := by
  intro tokens levels a r hr
  obtain ⟨⟨first, q⟩, hq, hr⟩ := ok_of_bind hr
  obtain ⟨⟨others, z⟩, hz, hr⟩ := ok_of_bind hr
  cases hr
  exact (reads_step h _ _ _ _ hq).trans (reads_stepsAfter h _ _ _ _ hz)

end Steps

section Paths

variable {inner : Parser Expr}

theorem reads_argumentsAfter (h : Reads Enclosed inner fun e => e.depth + 1) :
    Reads Enclosed (argumentsAfter inner) innerDepth := by
  intro tokens levels a r hr
  fun_induction argumentsAfter inner tokens levels generalizing a with
  | case1 rest levels ih =>
    obtain ⟨⟨e, q⟩, hq, hr⟩ := ok_of_bind hr
    obtain ⟨⟨es, z⟩, hz, hr⟩ := ok_of_bind hr
    cases hr
    exact .token _ ((h _ _ _ _ hq).trans (ih _ _ _ hz))
  | case2 tokens levels _ =>
    cases hr
    exact (Unspent.refl levels tokens).enclosed

/-- Arguments are read inside brackets. -/
theorem reads_arguments (h : Reads Enclosed inner fun e => e.depth + 1) :
    Reads Enclosed (arguments inner) innerDepth := by
  intro tokens levels a r hr
  fun_cases arguments inner tokens levels with
  | case1 rest levels =>
    cases hr
    exact (Unspent.refl levels _).enclosed
  | case2 tokens levels hclose =>
    rw [arguments] at hr
    · obtain ⟨⟨e, q⟩, hq, hr⟩ := ok_of_bind hr
      obtain ⟨⟨es, z⟩, hz, hr⟩ := ok_of_bind hr
      cases hr
      exact (h _ _ _ _ hq).trans (reads_argumentsAfter h _ _ _ _ hz)
    · exact hclose

theorem reads_call (h : Reads Enclosed inner fun e => e.depth + 1) (word : String) :
    Reads Unspent (call inner word) Expr.depth := by
  intro tokens levels a r hr
  unfold call at hr
  split at hr
  · cases hr
  · obtain ⟨⟨es, q⟩, hq, hr⟩ := ok_of_bind hr
    obtain ⟨⟨_, z⟩, hz, hr⟩ := ok_of_bind hr
    dsimp only at hr
    split at hr
    · cases hr
      exact (reads_arguments h _ _ _ _ hq).close hz rfl
    · cases hr

/-- A primary expression ends before any operator. -/
theorem reads_primary (h : Reads Enclosed inner fun e => e.depth + 1) :
    Reads Unspent (primary inner) Expr.depth := by
  intro tokens levels a r hr
  fun_cases primary inner tokens levels with
  | case1 rest levels =>
    obtain ⟨⟨e, q⟩, hq, hr⟩ := ok_of_bind hr
    obtain ⟨⟨_, z⟩, hz, hr⟩ := ok_of_bind hr
    cases hr
    exact .token _ (((h _ _ _ _ hq).of_le (Nat.le_succ _)).close hz rfl)
  | case2 s rest levels =>
    cases hr
    exact .token _ (.refl levels rest)
  | case3 x rest levels =>
    cases hr
    exact .token _ (.refl levels rest)
  | case4 word rest levels =>
    obtain ⟨⟨e, q⟩, hq, hr⟩ := ok_of_bind hr
    cases hr
    exact .token _ (.token _ (reads_call h word _ _ _ _ hq))
  | case5 tokens levels hparen hliteral hnumber hcall =>
    rw [primary] at hr
    · cases hr
    · exact hparen
    · exact hliteral
    · exact hnumber
    · exact hcall

theorem reads_joinedSteps (h : Reads Enclosed inner fun e => e.depth + 1) :
    Reads Unspent (joinedSteps inner) stepsDepth := by
  intro tokens levels a r hr
  fun_cases joinedSteps inner tokens levels with
  | case1 rest levels =>
    obtain ⟨⟨ss, q⟩, hq, hr⟩ := ok_of_bind hr
    cases hr
    exact .token _ (reads_steps h _ _ _ _ hq)
  | case2 rest levels =>
    obtain ⟨⟨ss, q⟩, hq, hr⟩ := ok_of_bind hr
    cases hr
    rw [stepsDepth_anywhereBelow]
    exact .token _ (reads_steps h _ _ _ _ hq)
  | case3 tokens levels hslash hdoubleSlash =>
    rw [joinedSteps] at hr
    · cases hr
      exact .refl levels tokens
    · exact hslash
    · exact hdoubleSlash

/-- A primary expression is as deep as the filter without predicates and steps. -/
theorem depth_filtered (e : Expr) (ps : List Expr) (ss : List Step) :
    (if ps.isEmpty && ss.isEmpty then e else .filter e ps ss).depth =
      max (max e.depth (innerDepth ps)) (stepsDepth ss) := by
  cases ps with
  | nil =>
    cases ss with
    | nil => simp [innerDepth, stepsDepth]
    | cons s rest => simp [Expr.depth, innerDepth]
  | cons p rest => simp [Expr.depth, Nat.max_assoc]

theorem reads_filtered (h : Reads Enclosed inner fun e => e.depth + 1) :
    Reads Unspent (filtered inner) Expr.depth := by
  intro tokens levels a r hr
  obtain ⟨⟨e, q⟩, hq, hr⟩ := ok_of_bind hr
  obtain ⟨⟨ps, z⟩, hz, hr⟩ := ok_of_bind hr
  obtain ⟨⟨ss, y⟩, hy, hr⟩ := ok_of_bind hr
  cases hr
  rw [depth_filtered]
  have hkept := (reads_primary h _ _ _ _ hq).trans (reads_predicates h _ _ _ _ hz)
  exact hkept.trans (reads_joinedSteps h _ _ _ _ hy)

/-- No path spends a level. -/
theorem reads_path (h : Reads Enclosed inner fun e => e.depth + 1) :
    Reads Unspent (path inner) Expr.depth := by
  intro tokens levels a r hr
  fun_cases path inner tokens levels with
  | case1 rest levels hstep =>
    rw [path, if_pos hstep] at hr
    obtain ⟨⟨ss, q⟩, hq, hr⟩ := ok_of_bind hr
    cases hr
    exact .token _ (reads_steps h _ _ _ _ hq)
  | case2 rest levels hstep =>
    rw [path, if_neg hstep] at hr
    cases hr
    exact .token _ (.refl levels rest)
  | case3 rest levels =>
    rw [path] at hr
    obtain ⟨⟨ss, q⟩, hq, hr⟩ := ok_of_bind hr
    cases hr
    rw [Expr.depth, stepsDepth_anywhereBelow]
    exact .token _ (reads_steps h _ _ _ _ hq)
  | case4 tokens levels hslash hdoubleSlash hstep =>
    rw [path, if_pos hstep] at hr
    · obtain ⟨⟨ss, q⟩, hq, hr⟩ := ok_of_bind hr
      cases hr
      exact reads_steps h _ _ _ _ hq
    · exact hslash
    · exact hdoubleSlash
  | case5 tokens levels hslash hdoubleSlash hstep =>
    rw [path, if_neg hstep] at hr
    · exact reads_filtered h _ _ _ _ hr
    · exact hslash
    · exact hdoubleSlash

end Paths

section Operators

variable {levels left mid m n : Nat} {tokens between rest : List Token}

/-- The operator of an operand on its right. What stands on its left has used up levels of its own. -/
theorem Spent.binary {op : BinaryOp} (h : Spent levels tokens (.operator op :: between) (mid + 1) m)
    (k : Spent mid between rest left n) : Spent levels tokens rest left (max m n + 1) := by
  obtain ⟨hmid, us, rfl, hm, -, hunclosed⟩ := h
  obtain ⟨hleft, vs, rfl, hn, ksettled, kunclosed⟩ := k
  have hmono : triangle mid ≤ triangle levels := triangle_mono (by omega)
  refine ⟨by omega, us ++ .operator op :: vs, by simp, by omega, fun hs => ?_, fun hu => ?_⟩
  · -- nothing is closed in front of the operator, so the left operand is no deeper than its levels
    have hus := hunclosed hs.unclosed
    have hvs := ksettled (hs.of_sublist (by simp))
    omega
  · have hus := hunclosed (hu.of_sublist (List.sublist_append_left us _))
    have hvs := kunclosed (hu.of_sublist (by simp))
    omega

/-- A minus sign uses up a level and adds one to the depth. -/
theorem Spent.negate (t : Token) (h : Spent levels tokens rest left m) :
    Spent (levels + 1) (t :: tokens) rest left (m + 1) := by
  obtain ⟨hleft, us, rfl, hm, hsettled, hunclosed⟩ := h
  have hmono : triangle levels ≤ triangle (levels + 1) := triangle_mono (Nat.le_succ _)
  refine ⟨by omega, t :: us, rfl, by omega, fun hs => ?_, fun hu => ?_⟩
  · exact Nat.succ_le_succ (hsettled (hs.of_sublist (List.sublist_cons_self t us)))
  · have hus := hunclosed (hu.of_sublist (List.sublist_cons_self t us))
    omega

/-- A level around a reading pays for one more in depth. -/
theorem Spent.nested (h : Spent levels tokens rest left m) :
    Enclosed (levels + 1) tokens rest (levels + 1) (m + 1) := by
  obtain ⟨hleft, us, rfl, hm, hsettled, -⟩ := h
  refine ⟨rfl, us, rfl, ?_, fun hs => Nat.succ_le_succ (hsettled hs)⟩
  rw [triangle]
  omega

end Operators

section Chains

variable {inner operand : Parser Expr}

/-- What a chain has read so far stays within the levels it began with. -/
theorem Spent.chainAfter {levels rank : Nat} {tokens : List Token}
    (h : Reads Spent operand Expr.depth) {e : Expr} {between : List Token} {mid : Nat} {a : Expr}
    {r : Rest (between.length + 1)} (hs : Spent levels tokens between mid e.depth)
    (hr : chainAfter rank operand e between mid = .ok (a, r)) :
    Spent levels tokens r.tokens r.levels a.depth := by
  fun_induction Query.chainAfter rank operand e between mid with
  | case1 e mid =>
    cases hr
    exact hs
  | case2 e t rest mid hop =>
    cases hr
    exact hs
  | case3 e t rest op hop => cases hr
  | case4 e t rest op mid hop ih =>
    obtain ⟨rfl, -⟩ := operatorAt?_eq_some hop
    obtain ⟨⟨right, q⟩, hq, hr⟩ := ok_of_bind hr
    obtain ⟨⟨f, z⟩, hz, hr⟩ := ok_of_bind hr
    cases hr
    exact ih _ _ (hs.binary (h _ _ _ _ hq)) hz

/-- Each operator of a chain uses up a level and adds one to the depth, on the left. -/
theorem reads_chain (rank : Nat) (h : Reads Spent operand Expr.depth) :
    Reads Spent (chain rank operand) Expr.depth := by
  intro tokens levels a r hr
  obtain ⟨⟨left, q⟩, hq, hr⟩ := ok_of_bind hr
  obtain ⟨⟨e, z⟩, hz, hr⟩ := ok_of_bind hr
  cases hr
  exact (h _ _ _ _ hq).chainAfter h hz

theorem reads_unary (h : Reads Spent operand Expr.depth) :
    Reads Spent (unary operand) Expr.depth := by
  intro tokens levels a r hr
  fun_induction unary operand tokens levels generalizing a with
  | case1 rest => cases hr
  | case2 rest levels ih =>
    obtain ⟨⟨e, q⟩, hq, hr⟩ := ok_of_bind hr
    cases hr
    exact (ih _ _ hq).negate _
  | case3 tokens levels _ => exact h _ _ _ _ hr

/-- Through all layers, levels pay for depth. -/
theorem reads_operators (h : Reads Enclosed inner fun e => e.depth + 1) :
    Reads Spent (operators inner) Expr.depth := by
  have hpath : Reads Spent (path inner) Expr.depth :=
    fun tokens levels a r hr => (reads_path h tokens levels a r hr).spent
  have hunary := reads_unary (reads_chain BinaryOp.union.rank hpath)
  have hranks (ranks : List Nat) : Reads Spent
      (ranks.foldr chain (unary (chain BinaryOp.union.rank (path inner)))) Expr.depth := by
    induction ranks with
    | nil => exact hunary
    | cons rank ranks ih => exact reads_chain rank ih
  exact hranks [0, 1, 2, 3, 4, 5]

end Chains

/-- An expression inside brackets is given the levels that are left, and gives them back. -/
theorem reads_expression (depth : Nat) : Reads Enclosed (expression depth) fun e => e.depth + 1 := by
  induction depth with
  | zero =>
    intro tokens levels a r hr
    cases hr
  | succ depth ih =>
    intro tokens levels a r hr
    cases levels with
    | zero => cases hr
    | succ levels =>
      obtain ⟨⟨e, q⟩, hq, hr⟩ := ok_of_bind hr
      cases hr
      exact (reads_operators ih _ _ _ _ hq).nested

end ComputedField.Query
