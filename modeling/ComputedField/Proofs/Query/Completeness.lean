import ComputedField.Proofs.Query.Soundness

/-!
# What is in the grammar is found by a reader

In front of tokens that cannot go on with a phrase, the reader of the phrase takes exactly the phrase
and returns what it stands for, unless it runs out of levels. One or two tokens are enough to choose
a way, because no token that may follow a phrase of one kind begins or continues another.
-/

namespace ComputedField.Query

/-- A reader gets to `rest` with `a`, if its levels suffice. -/
def Finds {α : Type} {n : Nat} (x : Except Error (α × Rest n)) (a : α) (rest : List Token) : Prop :=
  x = .error .tooDeep ∨ ∃ r, x = .ok (a, r) ∧ r.tokens = rest

section Finds

variable {α β : Type} {m n : Nat} {a : α} {b : β} {rest after : List Token}

theorem finds_ok (r : Rest n) : Finds (.ok (a, r)) a r.tokens := .inr ⟨r, rfl, rfl⟩

theorem finds_bind {x : Except Error (α × Rest m)} {f : α × Rest m → Except Error (β × Rest n)}
    (hx : Finds x a rest) (hf : ∀ levels fewer, Finds (f (a, ⟨rest, levels, fewer⟩)) b after) :
    Finds (x >>= f) b after := by
  rcases hx with rfl | ⟨⟨tokens, levels, fewer⟩, rfl, rfl⟩
  · exact .inl rfl
  · exact hf levels fewer

theorem finds_expect (t : Token) (expected : Expected) (levels : Nat) :
    Finds (expect t expected (t :: rest) levels) () rest := by
  rw [expect, if_pos rfl]
  exact finds_ok _

end Finds

/-- Whether an expression of the rank ends before the token: it closes a bracket or an argument, or is
an operator of a looser rank. -/
def Token.ends (rank : Nat) : Token → Bool
  | .closeParen | .closeBracket | .comma => true
  | .operator op => op.rank < rank
  | _ => false

def Ends (rank : Nat) (rest : List Token) : Prop := ∀ t, rest.head? = some t → t.ends rank = true

/-- What may follow an expression of a layer; a primary expression ends by itself. -/
def Layer.Before : Layer → List Token → Prop
  | .primary, _ => True
  | c, rest => Ends c.rank rest

/-- Tokens that do not turn a name before them into a call, a test or an axis. -/
def Apart (rest : List Token) : Prop :=
  rest.head? ≠ some .openParen ∧ rest.head? ≠ some .doubleColon

section Ends

variable {rank : Nat} {rest : List Token} {t : Token}

theorem ends_nil (rank : Nat) : Ends rank [] := by
  intro t h
  cases h

theorem ends_cons (h : t.ends rank = true) (rest : List Token) : Ends rank (t :: rest) := by
  intro u hu
  cases hu
  exact h

/-- What ends a looser expression ends a tighter one. -/
theorem Ends.mono {m n : Nat} (h : Ends m rest) (hmn : m ≤ n) : Ends n rest := by
  intro t ht
  have := h t ht
  cases t with
  | operator op =>
    simp only [Token.ends, decide_eq_true_eq] at this ⊢
    omega
  | _ => exact this

theorem Ends.before {c : Layer} (h : Ends c.rank rest) : c.Before rest := by
  cases c with
  | primary => trivial
  | _ => exact h

theorem Ends.head?_ne (h : Ends rank rest) (ht : t.ends rank = false) : rest.head? ≠ some t := by
  intro hs
  rw [h t hs] at ht
  cases ht

theorem Ends.apart (h : Ends rank rest) : Apart rest := ⟨h.head?_ne rfl, h.head?_ne rfl⟩

theorem Ends.startsStep (h : Ends rank rest) : startsStep rest = false := by
  cases rest with
  | nil => rfl
  | cons t tail =>
    have ht := h t rfl
    cases t <;> simp_all [Token.ends, Query.startsStep]

/-- No operator of the rank comes next. -/
theorem Ends.operatorAt? (h : Ends rank rest) : operatorAt? rank rest = none := by
  unfold Query.operatorAt?
  split
  · rename_i op tail
    have := h (.operator op) rfl
    simp only [Token.ends, decide_eq_true_eq] at this
    exact if_neg (Nat.ne_of_lt this)
  · rfl

theorem ne_cons_of_head?_ne (h : rest.head? ≠ some t) (tail : List Token) : rest ≠ t :: tail := by
  intro he
  exact h (by rw [he]; rfl)

end Ends

section Heads

variable {rest : List Token}

theorem startsStep_name {word : String} (h : ∀ tail, rest ≠ .openParen :: tail) :
    startsStep (.name word :: rest) = true := by
  cases rest with
  | nil => rfl
  | cons t tail =>
    cases t with
    | openParen => exact absurd rfl (h tail)
    | _ => rfl

/-- Before tokens that do not go on with it, a node test is told from a call. -/
theorem IsTest.startsStep {ts : List Token} {t : NodeTest} (h : IsTest ts t) (hrest : Apart rest) :
    startsStep (ts ++ rest) = true := by
  cases h with
  | any => rfl
  | name word => exact startsStep_name (ne_cons_of_head?_ne hrest.1)
  | text => rfl
  | node => rfl

theorem IsPredicates.apart {us : List Token} {ps : List Expr} (h : IsPredicates us ps)
    (hrest : Apart rest) : Apart (us ++ rest) := by
  cases h with
  | nil => exact hrest
  | cons inside others => simp [Apart]

/-- A step can be told by the token that it starts with. -/
theorem IsStep.startsStep {ts : List Token} {s : Step} (h : IsStep ts s) (hrest : Apart rest) :
    startsStep (ts ++ rest) = true := by
  cases h with
  | itself => rfl
  | parent => rfl
  | test axis test predicates =>
    cases axis with
    | child =>
      rw [List.nil_append, List.append_assoc]
      exact test.startsStep (predicates.apart hrest)
    | sign => rfl
    | named a => rfl

theorem IsSteps.startsStep {ts : List Token} {ss : List Step} (h : IsSteps ts ss)
    (hrest : Apart rest) : startsStep (ts ++ rest) = true := by
  cases h with
  | one step => exact step.startsStep hrest
  | slash step others =>
    rw [List.append_assoc]
    exact step.startsStep (by simp [Apart])
  | doubleSlash step others =>
    rw [List.append_assoc]
    exact step.startsStep (by simp [Apart])

/-- A call is told from a node test by the name of its function. -/
theorem IsExpr.startsStep_primary {ts : List Token} {e : Expr} (h : IsExpr .primary ts e) :
    startsStep (ts ++ rest) = false := by
  cases h with
  | joined layer first others => cases layer
  | bracketed inside => rfl
  | literal s => rfl
  | number x => rfl
  | call f arguments arity =>
    have hf : (f.spelling == "text" || f.spelling == "node") = false := by
      cases f <;> decide
    exact hf

/-- The token that an expression begins with. Only the unary minus and what is looser may begin with
an operator. -/
def Leads (c : Layer) (t : Token) : Prop :=
  t ≠ .closeParen ∧ (6 < c.rank → ∀ op, t ≠ .operator op)

theorem leads_of_startsStep {c : Layer} {t : Token} {tail : List Token}
    (h : startsStep (t :: tail) = true) : Leads c t := by
  cases t <;> simp_all [Query.startsStep, Leads]

theorem Leads.path {t : Token} (h : Leads .primary t) : Leads .path t :=
  ⟨h.1, fun _ => h.2 (by decide)⟩

/-- Every expression has a first token, which tells how it begins. -/
theorem IsExpr.exists_leads {c : Layer} {ts : List Token} {e : Expr} (h : IsExpr c ts e) :
    ∃ t tail, ts = t :: tail ∧ Leads c t := by
  match h with
  | .joined layer first others =>
    obtain ⟨t, tail, rfl, hclose, hop⟩ := first.exists_leads
    refine ⟨t, _, rfl, hclose, fun hc => hop ?_⟩
    have := layer.rank_succ
    omega
  | .negate operand => exact ⟨_, _, rfl, by simp, fun h => absurd h (by decide)⟩
  | .union operand =>
    obtain ⟨t, tail, rfl, hclose, -⟩ := operand.exists_leads
    exact ⟨t, tail, rfl, hclose, fun h => absurd h (by decide)⟩
  | .root => exact ⟨_, _, rfl, by simp [Leads]⟩
  | .absolute steps => exact ⟨_, _, rfl, by simp [Leads]⟩
  | .anywhere steps => exact ⟨_, _, rfl, by simp [Leads]⟩
  | .relative steps =>
    have hstep := @IsSteps.startsStep [] _ _ steps (by simp [Apart])
    rw [List.append_nil] at hstep
    cases ts with
    | nil => cases hstep
    | cons t tail => exact ⟨t, tail, rfl, leads_of_startsStep hstep⟩
  | .primary alone =>
    obtain ⟨t, tail, rfl, ht⟩ := alone.exists_leads
    exact ⟨t, tail, rfl, ht.path⟩
  | .filtered first predicates =>
    obtain ⟨t, tail, rfl, ht⟩ := first.exists_leads
    exact ⟨t, _, rfl, ht.path⟩
  | .followed first predicates steps =>
    obtain ⟨t, tail, rfl, ht⟩ := first.exists_leads
    exact ⟨t, _, rfl, ht.path⟩
  | .followedAnywhere first predicates steps =>
    obtain ⟨t, tail, rfl, ht⟩ := first.exists_leads
    exact ⟨t, _, rfl, ht.path⟩
  | .bracketed inside => exact ⟨_, _, rfl, by simp [Leads]⟩
  | .literal s => exact ⟨_, _, rfl, by simp [Leads]⟩
  | .number x => exact ⟨_, _, rfl, by simp [Leads]⟩
  | .call f arguments arity => exact ⟨_, _, rfl, by simp [Leads]⟩

end Heads

section Readers

variable {inner : Parser Expr} {rest : List Token}

theorem finds_chainAfter_nil {rank : Nat} {operand : Parser Expr} {e : Expr} (h : Ends rank rest)
    (levels : Nat) : Finds (chainAfter rank operand e rest levels) e rest := by
  rw [chainAfter_of_operatorAt? h.operatorAt?]
  exact finds_ok _

/-- An operator of the rank joins what was read with the next operand. -/
theorem finds_chainAfter_cons {rank : Nat} {operand : Parser Expr} {op : BinaryOp} {e f g : Expr}
    {tokens others : List Token} (hop : op.rank = rank)
    (hright : ∀ levels, Finds (operand tokens levels) f others)
    (hothers : ∀ levels, Finds (chainAfter rank operand (.binary op e f) others levels) g rest)
    (levels : Nat) : Finds (chainAfter rank operand e (.operator op :: tokens) levels) g rest := by
  have hat : operatorAt? rank (.operator op :: tokens) = some op := if_pos hop
  cases levels with
  | zero => exact .inl (chainAfter.eq_3 _ _ _ _ _ _ hat)
  | succ levels =>
    rw [chainAfter.eq_4 _ _ _ _ _ _ _ hat]
    refine finds_bind (hright levels) fun levels fewer => ?_
    exact finds_bind (hothers levels) fun levels fewer => finds_ok _

theorem finds_joined {c d : Layer} {ops : List BinaryOp} {e f : Expr} {tokens others : List Token}
    (layer : c.Joins ops d) (hfirst : ∀ levels, Finds (d.reader inner tokens levels) e others)
    (hothers : ∀ levels, Finds (chainAfter c.rank (d.reader inner) e others levels) f rest)
    (levels : Nat) : Finds (c.reader inner tokens levels) f rest := by
  rw [layer.reader_eq]
  refine finds_bind (hfirst levels) fun levels fewer => ?_
  exact finds_bind (hothers levels) fun levels fewer => finds_ok _

theorem finds_negate {operand : Parser Expr} {e : Expr} {tokens : List Token}
    (h : ∀ levels, Finds (unary operand tokens levels) e rest) (levels : Nat) :
    Finds (unary operand (.operator (.arith .sub) :: tokens) levels) (.negate e) rest := by
  cases levels with
  | zero => exact .inl rfl
  | succ levels => exact finds_bind (h levels) fun levels fewer => finds_ok _

theorem finds_predicates_nil (h : rest.head? ≠ some .openBracket) (levels : Nat) :
    Finds (predicates inner rest levels) [] rest := by
  rw [predicates]
  · exact finds_ok (.same rest levels)
  · exact ne_cons_of_head?_ne h

/-- A predicate is read up to its bracket, and the others behind it. -/
theorem finds_predicates_cons {p : Expr} {ps : List Expr} {tokens others : List Token}
    (hinside : ∀ levels, Finds (inner tokens levels) p (.closeBracket :: others))
    (hothers : ∀ levels, Finds (predicates inner others levels) ps rest) (levels : Nat) :
    Finds (predicates inner (.openBracket :: tokens) levels) (p :: ps) rest := by
  rw [predicates]
  refine finds_bind (hinside levels) fun levels fewer => ?_
  refine finds_bind (finds_expect _ _ levels) fun levels fewer => ?_
  exact finds_bind (hothers levels) fun levels fewer => finds_ok _

/-- An axis is read where it is written, and is the child axis where it is not. -/
theorem finds_axis {ts : List Token} {a : Axis} (h : IsAxis ts a)
    (hrest : ts = [] → rest.head? ≠ some .at ∧
      ∀ word tail, rest = .name word :: tail → tail.head? ≠ some .doubleColon) (levels : Nat) :
    Finds (axis (ts ++ rest) levels) a rest := by
  cases h with
  | child =>
    obtain ⟨hat, hname⟩ := hrest rfl
    rw [List.nil_append, axis]
    · exact finds_ok (.same rest levels)
    · exact ne_cons_of_head?_ne hat
    · intro word tail he
      exact hname word _ he rfl
  | sign => exact finds_ok _
  | named a =>
    simp only [List.cons_append, List.nil_append, axis, Axis.ofName?_name]
    exact finds_ok _

/-- A test is read as what it is written as, if nothing behind it says otherwise. -/
theorem finds_nodeTest {ts : List Token} {t : NodeTest} (h : IsTest ts t) (hrest : Apart rest)
    (levels : Nat) : Finds (nodeTest (ts ++ rest) levels) t rest := by
  cases h with
  | any => exact finds_ok _
  | name word =>
    rw [List.cons_append, List.nil_append, nodeTest]
    · exact finds_ok _
    · exact ne_cons_of_head?_ne hrest.1
  | text => exact finds_ok _
  | node => exact finds_ok _

theorem finds_step {ts us others : List Token} {a : Axis} {t : NodeTest} {ps : List Expr}
    (ha : IsAxis ts a) (ht : IsTest us t) (hothers : Apart others)
    (hps : ∀ levels, Finds (predicates inner others levels) ps rest) (levels : Nat) :
    Finds (step inner (ts ++ (us ++ others)) levels) (.mk a t ps) rest := by
  have haxis : ts = [] → (us ++ others).head? ≠ some .at ∧
      ∀ word tail, us ++ others = .name word :: tail → tail.head? ≠ some .doubleColon := by
    intro _
    cases ht with
    | name word =>
      refine ⟨by simp, fun word tail he => ?_⟩
      cases he
      exact hothers.2
    | _ => simp
  rw [step]
  · refine finds_bind (finds_axis ha haxis levels) fun levels fewer => ?_
    refine finds_bind (finds_nodeTest ht hothers levels) fun levels fewer => ?_
    exact finds_bind (hps levels) fun levels fewer => finds_ok _
  · intro tail
    cases ha <;> cases ht <;> simp
  · intro tail
    cases ha <;> cases ht <;> simp

/-- Steps go on behind a step as they do behind a primary expression. -/
theorem stepsAfter_eq_joinedSteps (tokens : List Token) (levels : Nat) :
    stepsAfter inner tokens levels = joinedSteps inner tokens levels := by
  fun_cases joinedSteps inner tokens levels with
  | case1 tail levels | case2 tail levels =>
    rw [stepsAfter, joinedSteps, steps]
    cases step inner tail levels with
    | error e => rfl
    | ok p =>
      cases h : stepsAfter inner p.2.tokens p.2.levels with
      | error e => simp [bind, Except.bind, h]
      | ok q =>
        simp only [bind, Except.bind, h]
        rfl
  | case3 tokens levels hslash hdoubleSlash =>
    rw [stepsAfter, joinedSteps]
    · exact hslash
    · exact hdoubleSlash
    · exact hslash
    · exact hdoubleSlash

theorem finds_joinedSteps_nil {rank : Nat} (h : Ends rank rest) (levels : Nat) :
    Finds (joinedSteps inner rest levels) [] rest := by
  rw [joinedSteps]
  · exact finds_ok (.same rest levels)
  · exact ne_cons_of_head?_ne (h.head?_ne rfl)
  · exact ne_cons_of_head?_ne (h.head?_ne rfl)

theorem finds_joinedSteps_slash {tokens : List Token} {ss : List Step}
    (h : ∀ levels, Finds (steps inner tokens levels) ss rest) (levels : Nat) :
    Finds (joinedSteps inner (.slash :: tokens) levels) ss rest :=
  finds_bind (h levels) fun _ _ => finds_ok _

theorem finds_joinedSteps_doubleSlash {tokens : List Token} {ss : List Step}
    (h : ∀ levels, Finds (steps inner tokens levels) ss rest) (levels : Nat) :
    Finds (joinedSteps inner (.doubleSlash :: tokens) levels) (.anywhereBelow :: ss) rest :=
  finds_bind (h levels) fun _ _ => finds_ok _

theorem finds_steps {tokens others : List Token} {s : Step} {ss : List Step}
    (hfirst : ∀ levels, Finds (step inner tokens levels) s others)
    (hothers : ∀ levels, Finds (joinedSteps inner others levels) ss rest) (levels : Nat) :
    Finds (steps inner tokens levels) (s :: ss) rest := by
  refine finds_bind (hfirst levels) fun levels fewer => ?_
  refine finds_bind ?_ fun levels fewer => finds_ok _
  rw [stepsAfter_eq_joinedSteps]
  exact hothers levels

/-- Arguments are read one by one up to the parenthesis. -/
theorem finds_arguments {tokens others : List Token} {e : Expr} {es : List Expr}
    (hhead : tokens.head? ≠ some .closeParen)
    (hfirst : ∀ levels, Finds (inner tokens levels) e others)
    (hothers : ∀ levels, Finds (argumentsAfter inner others levels) es rest) (levels : Nat) :
    Finds (arguments inner tokens levels) (e :: es) rest := by
  rw [arguments]
  · refine finds_bind (hfirst levels) fun levels fewer => ?_
    exact finds_bind (hothers levels) fun levels fewer => finds_ok _
  · exact ne_cons_of_head?_ne hhead

theorem finds_argumentsAfter_nil (levels : Nat) :
    Finds (argumentsAfter inner (.closeParen :: rest) levels) [] (.closeParen :: rest) := by
  rw [argumentsAfter]
  · exact finds_ok (.same _ levels)
  · simp

/-- Behind a comma stand arguments as at the beginning, but not none. -/
theorem argumentsAfter_comma {tokens : List Token} (hhead : tokens.head? ≠ some .closeParen)
    (levels : Nat) :
    argumentsAfter inner (.comma :: tokens) levels = (do
      let (es, r) ← arguments inner tokens levels
      return (es, r.widen (Nat.le_succ _))) := by
  rw [argumentsAfter, arguments]
  · cases inner tokens levels with
    | error e => rfl
    | ok p =>
      cases h : argumentsAfter inner p.2.tokens p.2.levels with
      | error e => simp [bind, Except.bind, h]
      | ok q =>
        simp only [bind, Except.bind, h]
        rfl
  · exact ne_cons_of_head?_ne hhead

theorem finds_argumentsAfter_comma {tokens : List Token} {es : List Expr}
    (hhead : tokens.head? ≠ some .closeParen)
    (h : ∀ levels, Finds (arguments inner tokens levels) es rest) (levels : Nat) :
    Finds (argumentsAfter inner (.comma :: tokens) levels) es rest := by
  rw [argumentsAfter_comma hhead]
  exact finds_bind (h levels) fun _ _ => finds_ok _

/-- A call is read if its function allows for so many arguments. -/
theorem finds_call {tokens : List Token} {f : Function} {es : List Expr}
    (harity : f.arity.allows es.length = true)
    (h : ∀ levels, Finds (arguments inner tokens levels) es (.closeParen :: rest)) (levels : Nat) :
    Finds (call inner f.spelling tokens levels) (.call f es) rest := by
  rw [call, Function.ofName?_spelling]
  refine finds_bind (h levels) fun levels fewer => ?_
  refine finds_bind (finds_expect _ _ levels) fun levels fewer => ?_
  dsimp only
  rw [if_pos harity]
  exact finds_ok _

theorem finds_primary_bracketed {tokens : List Token} {e : Expr}
    (h : ∀ levels, Finds (inner tokens levels) e (.closeParen :: rest)) (levels : Nat) :
    Finds (primary inner (.openParen :: tokens) levels) e rest := by
  refine finds_bind (h levels) fun levels fewer => ?_
  exact finds_bind (finds_expect _ _ levels) fun levels fewer => finds_ok _

theorem finds_primary_call {tokens : List Token} {f : Function} {es : List Expr}
    (harity : f.arity.allows es.length = true)
    (h : ∀ levels, Finds (arguments inner tokens levels) es (.closeParen :: rest)) (levels : Nat) :
    Finds (primary inner (.name f.spelling :: .openParen :: tokens) levels) (.call f es) rest :=
  finds_bind (finds_call harity h levels) fun _ _ => finds_ok _

theorem finds_path_relative {tokens : List Token} {ss : List Step}
    (hstep : startsStep tokens = true)
    (h : ∀ levels, Finds (steps inner tokens levels) ss rest) (levels : Nat) :
    Finds (path inner tokens levels) (.path false ss) rest := by
  rw [path, if_pos hstep]
  · exact finds_bind (h levels) fun _ _ => finds_ok _
  · rintro tail rfl
    cases hstep
  · rintro tail rfl
    cases hstep

theorem finds_path_absolute {tokens : List Token} {ss : List Step}
    (hstep : startsStep tokens = true)
    (h : ∀ levels, Finds (steps inner tokens levels) ss rest) (levels : Nat) :
    Finds (path inner (.slash :: tokens) levels) (.path true ss) rest := by
  rw [path, if_pos hstep]
  exact finds_bind (h levels) fun _ _ => finds_ok _

theorem finds_path_anywhere {tokens : List Token} {ss : List Step}
    (h : ∀ levels, Finds (steps inner tokens levels) ss rest) (levels : Nat) :
    Finds (path inner (.doubleSlash :: tokens) levels) (.path true (.anywhereBelow :: ss)) rest :=
  finds_bind (h levels) fun _ _ => finds_ok _

/-- An expression is wrapped only if predicates or steps follow. -/
theorem finds_path_filtered {ts others more : List Token} {e : Expr} {ps : List Expr}
    {ss : List Step} (head : IsExpr .primary ts e)
    (hprimary : ∀ levels, Finds (primary inner (ts ++ others) levels) e others)
    (hps : ∀ levels, Finds (predicates inner others levels) ps more)
    (hss : ∀ levels, Finds (joinedSteps inner more levels) ss rest) (levels : Nat) :
    Finds (path inner (ts ++ others) levels)
      (if ps.isEmpty && ss.isEmpty then e else .filter e ps ss) rest := by
  rw [path, if_neg (by simp [head.startsStep_primary])]
  · refine finds_bind (hprimary levels) fun levels fewer => ?_
    refine finds_bind (hps levels) fun levels fewer => ?_
    exact finds_bind (hss levels) fun levels fewer => finds_ok _
  · intro tail
    cases head with
    | joined layer first others => cases layer
    | _ => simp
  · intro tail
    cases head with
    | joined layer first others => cases layer
    | _ => simp

/-- With enough levels, an expression inside brackets is read like any other. -/
theorem finds_expression {tokens : List Token} {e : Expr}
    (h : ∀ depth levels, Finds (Layer.or.reader (expression depth) tokens levels) e rest)
    (depth levels : Nat) : Finds (expression depth tokens levels) e rest := by
  cases depth with
  | zero => exact .inl rfl
  | succ depth =>
    cases levels with
    | zero => exact .inl rfl
    | succ inside => exact finds_bind (h depth inside) fun levels fewer => finds_ok _

end Readers

section Phrases

variable {rest : List Token}

/-- An operand ends where its chain goes on. -/
theorem IsChain.ends {c d : Layer} {ops : List BinaryOp} {e f : Expr} {us : List Token}
    (h : IsChain ops d e us f) (layer : c.Joins ops d) (hrest : Ends c.rank rest) :
    Ends d.rank (us ++ rest) := by
  have hd := layer.rank_succ
  cases h with
  | nil => exact hrest.mono (by omega)
  | cons mem right others =>
    refine ends_cons ?_ _
    have := (layer.mem_iff _).mp mem
    simp only [Token.ends, decide_eq_true_eq]
    omega

theorem IsExpr.head?_append_ne {c : Layer} {ts : List Token} {e : Expr} (h : IsExpr c ts e) :
    (ts ++ rest).head? ≠ some .closeParen := by
  obtain ⟨t, tail, rfl, hclose, -⟩ := h.exists_leads
  simpa using hclose

theorem IsArguments.head?_append_ne {ts : List Token} {e : Expr} {es : List Expr}
    (h : IsArguments ts (e :: es)) : (ts ++ rest).head? ≠ some .closeParen := by
  cases h with
  | one last => exact last.head?_append_ne
  | cons first others =>
    rw [List.append_assoc]
    exact first.head?_append_ne

/-- Without a minus sign an operand is read. -/
theorem unary_cons {operand : Parser Expr} {t : Token} (ht : t ≠ .operator (.arith .sub))
    (tail : List Token) (levels : Nat) :
    unary operand (t :: tail) levels = operand (t :: tail) levels := by
  cases t with
  | operator op =>
    cases op with
    | arith op =>
      cases op with
      | sub => exact absurd rfl ht
      | _ => rfl
    | _ => rfl
  | _ => rfl

/-- A union does not begin with a minus, so no other rule for unary expressions applies to it. -/
theorem unary_of_isExpr {operand : Parser Expr} {ts : List Token} {e : Expr}
    (h : IsExpr .union ts e) (levels : Nat) :
    unary operand (ts ++ rest) levels = operand (ts ++ rest) levels := by
  obtain ⟨t, tail, rfl, -, hop⟩ := h.exists_leads
  exact unary_cons (hop (by decide) _) _ levels

end Phrases

mutual

/-- What the grammar spells is found, whatever may follow it. -/
theorem finds_isExpr {c : Layer} {ts : List Token} {e : Expr} (h : IsExpr c ts e)
    (rest : List Token) (hrest : c.Before rest) (depth levels : Nat) :
    Finds (c.reader (expression depth) (ts ++ rest) levels) e rest := by
  -- On derivations: what follows a part is what its layer allows, or the token that closes it.
  match h with
  | @IsExpr.joined _ d _ _ us _ _ layer first others =>
    have hends : Ends c.rank rest := by
      cases layer <;> exact hrest
    rw [List.append_assoc]
    exact finds_joined layer (finds_isExpr first _ (others.ends layer hends).before depth)
      (finds_isChain others layer _ hends depth) levels
  | .negate operand => exact finds_negate (finds_isExpr operand _ hrest depth) levels
  | .union operand =>
    have h := finds_isExpr operand _ (Ends.mono hrest (by decide)) depth levels
    change Finds (unary (Layer.union.reader (expression depth)) _ levels) e rest
    rw [unary_of_isExpr operand]
    exact h
  | .root =>
    have hstep := Ends.startsStep hrest
    change Finds (path (expression depth) (.slash :: rest) levels) (.path true []) rest
    rw [path, if_neg (by simp [hstep])]
    exact finds_ok _
  | .absolute steps =>
    exact finds_path_absolute (steps.startsStep (Ends.apart hrest)) (finds_isSteps steps _ hrest depth)
      levels
  | .anywhere steps => exact finds_path_anywhere (finds_isSteps steps _ hrest depth) levels
  | .relative steps =>
    exact finds_path_relative (steps.startsStep (Ends.apart hrest)) (finds_isSteps steps _ hrest depth)
      levels
  | .primary alone =>
    exact finds_path_filtered alone (finds_isExpr alone _ trivial depth)
      (finds_predicates_nil (Ends.head?_ne hrest rfl)) (finds_joinedSteps_nil hrest) levels
  | .filtered alone predicates =>
    have hps := finds_isPredicates predicates _ (Ends.head?_ne hrest rfl) depth
    rw [List.append_assoc]
    exact finds_path_filtered alone (finds_isExpr alone _ trivial depth) hps
      (finds_joinedSteps_nil hrest) levels
  | @IsExpr.followed _ us vs _ ps ss alone predicates steps =>
    have hps := finds_isPredicates predicates (.slash :: (vs ++ rest)) (by simp) depth
    have h := finds_path_filtered alone (finds_isExpr alone _ trivial depth) hps
      (finds_joinedSteps_slash (finds_isSteps steps _ hrest depth)) levels
    rw [steps.isEmpty_eq_false, Bool.and_false, if_neg Bool.false_ne_true] at h
    rw [List.append_assoc, List.append_assoc]
    exact h
  | @IsExpr.followedAnywhere _ us vs _ ps ss alone predicates steps =>
    have hps := finds_isPredicates predicates (.doubleSlash :: (vs ++ rest)) (by simp) depth
    have h := finds_path_filtered alone (finds_isExpr alone _ trivial depth) hps
      (finds_joinedSteps_doubleSlash (finds_isSteps steps _ hrest depth)) levels
    rw [List.isEmpty_cons, Bool.and_false, if_neg Bool.false_ne_true] at h
    rw [List.append_assoc, List.append_assoc]
    exact h
  | .bracketed inside =>
    have hinside := finds_expression fun depth =>
      finds_isExpr inside (.closeParen :: rest) (ends_cons rfl rest) depth
    rw [List.cons_append, List.append_assoc]
    exact finds_primary_bracketed (hinside depth) levels
  | .literal s => exact finds_ok _
  | .number x => exact finds_ok _
  | .call f arguments arity =>
    rw [List.cons_append, List.cons_append, List.append_assoc]
    exact finds_primary_call arity (finds_isArguments arguments _ depth) levels

theorem finds_isChain {c d : Layer} {ops : List BinaryOp} {ts : List Token} {e f : Expr}
    (h : IsChain ops d e ts f) (layer : c.Joins ops d) (rest : List Token)
    (hrest : Ends c.rank rest) (depth levels : Nat) :
    Finds (chainAfter c.rank (d.reader (expression depth)) e (ts ++ rest) levels) f rest := by
  match h with
  | .nil => exact finds_chainAfter_nil hrest levels
  | .cons mem right others =>
    rw [List.cons_append, List.append_assoc]
    exact finds_chainAfter_cons ((layer.mem_iff _).mp mem)
      (finds_isExpr right _ (others.ends layer hrest).before depth)
      (finds_isChain others layer _ hrest depth) levels

theorem finds_isSteps {ts : List Token} {ss : List Step} (h : IsSteps ts ss)
    (rest : List Token) (hrest : Ends 8 rest) (depth levels : Nat) :
    Finds (steps (expression depth) (ts ++ rest) levels) ss rest := by
  match h with
  | .one step =>
    exact finds_steps (finds_isStep step _ hrest.apart (hrest.head?_ne rfl) depth)
      (finds_joinedSteps_nil hrest) levels
  | @IsSteps.slash _ us _ _ step others =>
    have hstep := finds_isStep step (.slash :: (us ++ rest)) (by simp [Apart]) (by simp) depth
    rw [List.append_assoc]
    exact finds_steps hstep (finds_joinedSteps_slash (finds_isSteps others _ hrest depth)) levels
  | @IsSteps.doubleSlash _ us _ _ step others =>
    have hstep := finds_isStep step (.doubleSlash :: (us ++ rest)) (by simp [Apart]) (by simp)
      depth
    rw [List.append_assoc]
    exact finds_steps hstep (finds_joinedSteps_doubleSlash (finds_isSteps others _ hrest depth)) levels

theorem finds_isStep {ts : List Token} {s : Step} (h : IsStep ts s) (rest : List Token)
    (hrest : Apart rest) (hbracket : rest.head? ≠ some .openBracket) (depth levels : Nat) :
    Finds (step (expression depth) (ts ++ rest) levels) s rest := by
  match h with
  | .itself => exact finds_ok _
  | .parent => exact finds_ok _
  | .test axis test predicates =>
    rw [List.append_assoc, List.append_assoc]
    exact finds_step axis test (predicates.apart hrest) (finds_isPredicates predicates _ hbracket depth)
      levels

theorem finds_isPredicates {ts : List Token} {ps : List Expr} (h : IsPredicates ts ps)
    (rest : List Token) (hrest : rest.head? ≠ some .openBracket) (depth levels : Nat) :
    Finds (predicates (expression depth) (ts ++ rest) levels) ps rest := by
  match h with
  | .nil => exact finds_predicates_nil hrest levels
  | @IsPredicates.cons _ us _ _ inside others =>
    have hinside := finds_expression fun depth =>
      finds_isExpr inside (.closeBracket :: (us ++ rest)) (ends_cons rfl _) depth
    rw [List.cons_append, List.append_assoc]
    exact finds_predicates_cons (hinside depth) (finds_isPredicates others _ hrest depth) levels

theorem finds_isArguments {ts : List Token} {es : List Expr} (h : IsArguments ts es)
    (rest : List Token) (depth levels : Nat) :
    Finds (arguments (expression depth) (ts ++ .closeParen :: rest) levels) es
      (.closeParen :: rest) := by
  match h with
  | .nil => exact finds_ok (.same _ levels)
  | .one last =>
    have hlast := finds_expression fun depth =>
      finds_isExpr last (.closeParen :: rest) (ends_cons rfl rest) depth
    exact finds_arguments last.head?_append_ne (hlast depth) finds_argumentsAfter_nil levels
  | @IsArguments.cons _ us _ _ _ first others =>
    have hfirst := finds_expression fun depth =>
      finds_isExpr first (.comma :: (us ++ .closeParen :: rest)) (ends_cons rfl _) depth
    have hothers := finds_argumentsAfter_comma others.head?_append_ne
      (finds_isArguments others rest depth)
    rw [List.append_assoc]
    exact finds_arguments first.head?_append_ne (hfirst depth) hothers levels

end

theorem parse_of_tokenize {query : String} {tokens : List Token} (h : tokenize query = .ok tokens) :
    Expr.parse query = Expr.ofTokens tokens := by
  rw [Expr.parse, h]
  rfl

/-- What is read is spelled by the tokens. -/
theorem isExpr_of_ofTokens {tokens : List Token} {e : Expr} (h : Expr.ofTokens tokens = .ok e) :
    IsExpr .or tokens e := by
  obtain ⟨⟨f, r⟩, hr, h⟩ := ok_of_bind h
  dsimp only at h
  split at h
  · rename_i hempty
    cases h
    obtain ⟨used, hused, hexpr⟩ := spells_expression _ _ _ _ _ hr
    rw [List.isEmpty_iff.mp hempty, List.append_nil] at hused
    rw [hused]
    exact hexpr
  · cases h

/-- What the tokens spell is read, unless it is too deep. -/
theorem ofTokens_of_isExpr {tokens : List Token} {e : Expr} (h : IsExpr .or tokens e) :
    Expr.ofTokens tokens = .error .tooDeep ∨ Expr.ofTokens tokens = .ok e := by
  have hfinds := finds_expression (fun depth => finds_isExpr h [] (ends_nil 0) depth) maxDepth maxDepth
  rw [List.append_nil] at hfinds
  rcases hfinds with hdeep | ⟨r, hr, hrest⟩
  · left
    rw [Expr.ofTokens, hdeep]
    rfl
  · right
    rw [Expr.ofTokens, hr]
    exact if_pos (List.isEmpty_iff.mpr hrest)

/-- Parsing accepts just the queries whose tokens are in the grammar, and makes of them what the
grammar says, as long as they are not too deep. -/
theorem parse_eq_ok_iff {query : String} {tokens : List Token} (ht : tokenize query = .ok tokens)
    (hdeep : Expr.parse query ≠ .error .tooDeep) (e : Expr) :
    Expr.parse query = .ok e ↔ IsExpr .or tokens e := by
  rw [parse_of_tokenize ht] at hdeep ⊢
  constructor
  · exact isExpr_of_ofTokens
  · intro h
    exact (ofTokens_of_isExpr h).resolve_left hdeep

theorem isExpr_negated_union :
    IsExpr .or [.operator (.arith .sub), .slash, .operator .union, .name "a"]
      (.negate (.binary .union (.path true []) (.path false [.mk .child (.name "a") []]))) := by
  have hscan : tokensAfter none "-/|a".toList =
      .ok [.operator (.arith .sub), .slash, .operator .union, .name "a"] := by cbv
  have htokens : tokenize "-/|a" =
      .ok [.operator (.arith .sub), .slash, .operator .union, .name "a"] := by
    rw [tokenize, hscan]
    rfl
  have hparse : Expr.parse "-/|a" =
      .ok (.negate (.binary .union (.path true []) (.path false [.mk .child (.name "a") []]))) := by
    rw [parse_of_tokenize htokens]
    cbv
  have hdeep : Expr.parse "-/|a" ≠ .error .tooDeep := by
    rw [hparse]
    simp
  exact (parse_eq_ok_iff htokens hdeep _).mp hparse

end ComputedField.Query
