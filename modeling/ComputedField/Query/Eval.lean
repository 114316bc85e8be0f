import ComputedField.Decimal.Double
import ComputedField.Query.Apply
import ComputedField.Query.Compare
import ComputedField.Query.Parse
import ComputedField.Query.Walk

/-!
# The value of a query

An expression is evaluated for a node of a document, its position among its fellows, and their
number. Each step of a path goes out from every node reached so far; its predicates narrow down the
nodes in the order of the axis, and what is reached is put in document order.
-/

namespace ComputedField.Query

open Markup (Document NodeId)

/-- The distance below which a number counts as a position. -/
def positionTolerance : Float := Decimal.nearest false 1 (-52)

/-- Whether the value of a predicate keeps a node: a number stands for a position. -/
def Value.keeps (position : Nat) : Value → Bool
  | .atom (.number x) => (x - Float.ofNat position).abs < positionTolerance
  | v => v.toTruth

/-- The nodes that a test keeps, each judged at its place among all of them. -/
def keepFrom (judge : Context → Except Error Value) (size : Nat) :
    Nat → List NodeId → Except Error (List NodeId)
  | _, [] => .ok []
  | position, n :: rest => do
    let v ← judge ⟨n, position, size⟩
    let kept ← keepFrom judge size (position + 1) rest
    return if v.keeps position then n :: kept else kept

def keep (judge : Context → Except Error Value) (ns : List NodeId) : Except Error (List NodeId) :=
  keepFrom judge ns.length 1 ns

/-- What one function selects for each of some nodes, all together. -/
def gather (select : NodeId → Except Error (List NodeId)) : List NodeId → Except Error (List NodeId)
  | [] => .ok []
  | n :: rest => do
    let here ← select n
    let there ← gather select rest
    return here ++ there

def ArithOp.apply : ArithOp → Float → Float → Float
  | .add, x, y => x + y
  | .sub, x, y => x - y
  | .mul, x, y => x * y
  | .div, x, y => x / y
  | .mod, x, y => Decimal.remainder x y

variable (d : Document)

mutual

def Expr.eval : Expr → Context → Except Error Value
  | .binary .or left right, c => do
    if (← left.eval c).toTruth then ofTruth true else ofTruth (← right.eval c).toTruth
  | .binary .and left right, c => do
    if (← left.eval c).toTruth then ofTruth (← right.eval c).toTruth else ofTruth false
  | .binary (.compare op) left right, c => do
    let l ← left.eval c
    let r ← right.eval c
    ofTruth (op.values d l r)
  | .binary (.arith op) left right, c => do
    let l ← left.eval c
    let r ← right.eval c
    ofNumber (op.apply (l.toNumber d) (r.toNumber d))
  | .binary .union left right, c => do
    let l ← (← left.eval c).asNodes .union
    let r ← (← right.eval c).asNodes .union
    return .nodes (documentOrder (l ++ r))
  | .negate e, c => do ofNumber (-(← e.eval c).toNumber d)
  | .path absolute steps, c =>
    (walk steps [if absolute then Document.root else c.node]).map .nodes
  | .filter primary predicates steps, c => do
    let ns ← (← primary.eval c).asNodes .filter
    let kept ← narrow predicates ns
    return .nodes (← walk steps kept)
  | .literal s, _ => ofText s
  | .number x, _ => ofNumber x
  | .call f arguments, c => do c.call d f (← evalAll arguments c)

/-- The values of arguments. -/
def evalAll : List Expr → Context → Except Error (List Value)
  | [], _ => .ok []
  | e :: rest, c => do
    let v ← e.eval c
    let vs ← evalAll rest c
    return v :: vs

/-- The nodes that all predicates keep, one predicate after the other. -/
def narrow : List Expr → List NodeId → Except Error (List NodeId)
  | [], ns => .ok ns
  | p :: rest, ns => do
    let kept ← keep p.eval ns
    narrow rest kept

/-- The nodes that a step selects from one node, in the order of its axis. -/
def Step.select : Step → NodeId → Except Error (List NodeId)
  | .mk axis test predicates, n =>
    narrow predicates ((axis.nodes d n).filter (test.holds d axis))

/-- The nodes reached by steps from some nodes. -/
def walk : List Step → List NodeId → Except Error (List NodeId)
  | [], ns => .ok ns
  | s :: rest, ns => do
    let reached ← gather s.select ns
    walk rest (documentOrder reached)

end

/-- The value of a query for the root of a document. -/
def evaluate (query : String) : Except Error Value := do
  (← Expr.parse query).eval d Context.ofRoot

/-- The text of a query's value. -/
def evaluateText (query : String) : Except Error String :=
  (evaluate d query).map (·.toText d)

end ComputedField.Query
