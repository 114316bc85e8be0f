import ComputedField.Query.Scan

/-!
# From tokens to expressions

A reader takes tokens from the front and says what they express. Operators of one rank associate to
the left; from the loosest to the tightest they are `or`, `and`, equality, order, sums, products,
the unary minus and `|`. Every operator, bracketed expression, predicate and argument uses up a
level until the expression around it ends, and a query has `maxDepth` levels.
-/

namespace ComputedField.Query

/-- The tokens ahead, fewer than `bound`, and the levels that are left. -/
structure Rest (bound : Nat) where
  tokens : List Token
  levels : Nat
  fewer : tokens.length < bound

/-- The same place seen from further back. -/
def Rest.widen {m n : Nat} (r : Rest m) (h : m ≤ n) : Rest n :=
  ⟨r.tokens, r.levels, Nat.lt_of_lt_of_le r.fewer h⟩

/-- Reads something from the tokens ahead, with so many levels left, and takes at least one. -/
abbrev Parser (α : Type) :=
  (tokens : List Token) → (levels : Nat) → Except Error (α × Rest tokens.length)

/-- Reads something that may be absent. -/
abbrev OptionalParser (α : Type) :=
  (tokens : List Token) → (levels : Nat) → Except Error (α × Rest (tokens.length + 1))

/-- Reads nothing. -/
def Rest.same (tokens : List Token) (levels : Nat) : Rest (tokens.length + 1) :=
  ⟨tokens, levels, Nat.lt_succ_self _⟩

def unexpected {α : Type} (expected : Expected) (tokens : List Token) : Except Error α :=
  .error (.unexpectedToken expected tokens.head?)

/-- Reads the given token. -/
def expect (t : Token) (expected : Expected) : Parser Unit
  | [], _ => unexpected expected []
  | u :: rest, levels =>
    if u = t then .ok ((), ⟨rest, levels, by simp⟩) else unexpected expected (u :: rest)

/-- The rank of an operator; the unary minus lies between products and unions. -/
def BinaryOp.rank : BinaryOp → Nat
  | .or => 0
  | .and => 1
  | .compare .eq | .compare .ne => 2
  | .compare _ => 3
  | .arith .add | .arith .sub => 4
  | .arith _ => 5
  | .union => 7

/-- The operator of a rank at the front. -/
def operatorAt? (rank : Nat) : List Token → Option BinaryOp
  | .operator op :: _ => if op.rank = rank then some op else none
  | _ => none

/-- Reads on while operators of one rank follow `left`. -/
def chainAfter (rank : Nat) (operand : Parser Expr) (left : Expr) : OptionalParser Expr
  | [], levels => .ok (left, .same [] levels)
  | t :: rest, levels =>
    match operatorAt? rank (t :: rest), levels with
    | none, levels => .ok (left, .same (t :: rest) levels)
    | some _, 0 => .error .tooDeep
    | some op, levels + 1 => do
      let (right, r) ← operand rest levels
      have := r.fewer
      let (e, q) ← chainAfter rank operand (.binary op left right) r.tokens r.levels
      return (e, q.widen (by simp only [List.length_cons]; omega))
termination_by tokens => tokens.length

def chain (rank : Nat) (operand : Parser Expr) : Parser Expr := fun tokens levels => do
  let (left, r) ← operand tokens levels
  let (e, q) ← chainAfter rank operand left r.tokens r.levels
  return (e, q.widen r.fewer)

/-- Reads unary minuses before an operand. -/
def unary (operand : Parser Expr) : Parser Expr
  | .operator (.arith .sub) :: rest, levels =>
    match levels with
    | 0 => .error .tooDeep
    | levels + 1 => do
      let (e, r) ← unary operand rest levels
      return (.negate e, r.widen (by simp))
  | tokens, levels => operand tokens levels

/-- Gives an expression a level of its own; all levels used inside are free again behind it. -/
def nested (body : Parser Expr) : Parser Expr := fun tokens levels =>
  match levels with
  | 0 => .error .tooDeep
  | inside + 1 => do
    let (e, r) ← body tokens inside
    return (e, ⟨r.tokens, inside + 1, r.fewer⟩)

/-- Reads predicates in brackets. -/
def predicates (inner : Parser Expr) : OptionalParser (List Expr)
  | .openBracket :: rest, levels => do
    let (p, r) ← inner rest levels
    let (_, q) ← expect .closeBracket .closeBracket r.tokens r.levels
    have := r.fewer
    have := q.fewer
    let (ps, z) ← predicates inner q.tokens q.levels
    return (p :: ps, z.widen (by simp only [List.length_cons]; omega))
  | tokens, levels => .ok ([], .same tokens levels)
termination_by tokens => tokens.length

def nodeTest : Parser NodeTest
  | .star :: rest, levels => .ok (.any, ⟨rest, levels, by simp⟩)
  | .name word :: .openParen :: rest, levels =>
    if word = "text" ∨ word = "node" then do
      let (_, r) ← expect .closeParen .closeParen rest levels
      return (if word = "text" then .text else .node,
        r.widen (by simp only [List.length_cons]; omega))
    else .error (.unsupported (.nodeType word))
  | .name word :: rest, levels => .ok (.name word, ⟨rest, levels, by simp⟩)
  | tokens, _ => unexpected .nodeTest tokens

/-- Reads an axis, which is the child axis where none is written. -/
def axis : OptionalParser Axis
  | .at :: rest, levels =>
    .ok (.attribute, ⟨rest, levels, by simp only [List.length_cons]; omega⟩)
  | .name word :: .doubleColon :: rest, levels =>
    match Axis.ofName? word with
    | some a => .ok (a, ⟨rest, levels, by simp only [List.length_cons]; omega⟩)
    | none => .error (.unknownAxis word)
  | tokens, levels => .ok (.child, .same tokens levels)

def step (inner : Parser Expr) : Parser Step
  | .dot :: rest, levels => .ok (.mk .itself .node [], ⟨rest, levels, by simp⟩)
  | .doubleDot :: rest, levels => .ok (.mk .parent .node [], ⟨rest, levels, by simp⟩)
  | tokens, levels => do
    let (a, r) ← axis tokens levels
    let (test, q) ← nodeTest r.tokens r.levels
    let (ps, z) ← predicates inner q.tokens q.levels
    have := r.fewer
    have := q.fewer
    return (.mk a test ps, z.widen (by omega))

/-- Reads the slashes and steps that follow a step. -/
def stepsAfter (inner : Parser Expr) : OptionalParser (List Step)
  | .slash :: rest, levels => do
    let (first, r) ← step inner rest levels
    have := r.fewer
    let (others, q) ← stepsAfter inner r.tokens r.levels
    return (first :: others, q.widen (by simp only [List.length_cons]; omega))
  | .doubleSlash :: rest, levels => do
    let (first, r) ← step inner rest levels
    have := r.fewer
    let (others, q) ← stepsAfter inner r.tokens r.levels
    return (.anywhereBelow :: first :: others, q.widen (by simp only [List.length_cons]; omega))
  | tokens, levels => .ok ([], .same tokens levels)
termination_by tokens => tokens.length

def steps (inner : Parser Expr) : Parser (List Step) := fun tokens levels => do
  let (first, r) ← step inner tokens levels
  let (others, q) ← stepsAfter inner r.tokens r.levels
  return (first :: others, q.widen r.fewer)

/-- Whether a step comes next. A name before a parenthesis calls a function, unless it is one of the
tests for texts and nodes. -/
def startsStep : List Token → Bool
  | .dot :: _ | .doubleDot :: _ | .at :: _ | .star :: _ => true
  | .name word :: .openParen :: _ => word == "text" || word == "node"
  | .name _ :: _ => true
  | _ => false

/-- Reads the arguments that follow the first one. -/
def argumentsAfter (inner : Parser Expr) : OptionalParser (List Expr)
  | .comma :: rest, levels => do
    let (e, r) ← inner rest levels
    have := r.fewer
    let (es, q) ← argumentsAfter inner r.tokens r.levels
    return (e :: es, q.widen (by simp only [List.length_cons]; omega))
  | tokens, levels => .ok ([], .same tokens levels)
termination_by tokens => tokens.length

/-- Reads what stands between the parentheses of a call. -/
def arguments (inner : Parser Expr) : OptionalParser (List Expr)
  | .closeParen :: rest, levels => .ok ([], .same (.closeParen :: rest) levels)
  | tokens, levels => do
    let (e, r) ← inner tokens levels
    let (es, q) ← argumentsAfter inner r.tokens r.levels
    have := r.fewer
    return (e :: es, q.widen (by omega))

/-- Reads a call from behind its opening parenthesis. -/
def call (inner : Parser Expr) (word : String) : Parser Expr := fun tokens levels =>
  match Function.ofName? word with
  | none => .error (.unknownFunction word)
  | some f => do
    let (es, r) ← arguments inner tokens levels
    let (_, q) ← expect .closeParen .closeParen r.tokens r.levels
    have := r.fewer
    if f.arity.allows es.length then return (.call f es, q.widen (by omega))
    else .error (.wrongArity f es.length)

def primary (inner : Parser Expr) : Parser Expr
  | .openParen :: rest, levels => do
    let (e, r) ← inner rest levels
    let (_, q) ← expect .closeParen .closeParen r.tokens r.levels
    have := r.fewer
    return (e, q.widen (by simp only [List.length_cons]; omega))
  | .literal text :: rest, levels => .ok (.literal text, ⟨rest, levels, by simp⟩)
  | .number x :: rest, levels => .ok (.number x, ⟨rest, levels, by simp⟩)
  | .name word :: .openParen :: rest, levels => do
    let (e, r) ← call inner word rest levels
    return (e, r.widen (by simp only [List.length_cons]; omega))
  | tokens, _ => unexpected .expression tokens

/-- Reads the steps that a slash joins to an expression; `//` is a step of its own. -/
def joinedSteps (inner : Parser Expr) : OptionalParser (List Step)
  | .slash :: rest, levels => do
    let (ss, r) ← steps inner rest levels
    return (ss, r.widen (by simp only [List.length_cons]; omega))
  | .doubleSlash :: rest, levels => do
    let (ss, r) ← steps inner rest levels
    return (.anywhereBelow :: ss, r.widen (by simp only [List.length_cons]; omega))
  | tokens, levels => .ok ([], .same tokens levels)

/-- A primary expression with predicates and steps; without either it is itself. -/
def filtered (inner : Parser Expr) : Parser Expr := fun tokens levels => do
  let (e, r) ← primary inner tokens levels
  let (ps, q) ← predicates inner r.tokens r.levels
  let (ss, z) ← joinedSteps inner q.tokens q.levels
  have := r.fewer
  have := q.fewer
  return (if ps.isEmpty && ss.isEmpty then e else .filter e ps ss, z.widen (by omega))

def path (inner : Parser Expr) : Parser Expr
  | .slash :: rest, levels =>
    if startsStep rest then do
      let (ss, r) ← steps inner rest levels
      return (.path true ss, r.widen (by simp))
    else .ok (.path true [], ⟨rest, levels, by simp⟩)
  | .doubleSlash :: rest, levels => do
    let (ss, r) ← steps inner rest levels
    return (.path true (.anywhereBelow :: ss), r.widen (by simp))
  | tokens, levels =>
    if startsStep tokens then do
      let (ss, r) ← steps inner tokens levels
      return (.path false ss, r)
    else filtered inner tokens levels

/-- Operators from the loosest to the tightest around paths. -/
def operators (inner : Parser Expr) : Parser Expr :=
  [0, 1, 2, 3, 4, 5].foldr chain (unary (chain BinaryOp.union.rank (path inner)))

/-- Reads an expression that holds at most so many expressions within each other. -/
def expression : Nat → Parser Expr
  | 0 => fun _ _ => .error .tooDeep
  | depth + 1 => nested (operators (expression depth))

/-- The expression of a whole token list. -/
def Expr.ofTokens (tokens : List Token) : Except Error Expr := do
  let (e, r) ← expression maxDepth tokens maxDepth
  if r.tokens.isEmpty then return e else unexpected .theEnd r.tokens

def Expr.parse (query : String) : Except Error Expr := do
  Expr.ofTokens (← tokenize query)

end ComputedField.Query
