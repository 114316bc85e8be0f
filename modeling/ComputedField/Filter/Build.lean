import ComputedField.Filter.BooleanQuery
import ComputedField.Filter.Kind

/-!
# From tokens to conditions

What a filter on a field asks for. Every join takes the next key of the counter that all filters of
a search share; a filter without anything to ask for takes none.
-/

namespace ComputedField.Filter

/-- A fragment over one join with the next key. -/
def applyOne (field : FieldId) (counter : Nat) (condition : Join → Predicate) : Outcome × Nat :=
  let join : Join := ⟨field, counter + 1⟩
  (.applied ⟨[join], [condition join]⟩, counter + 1)

/-- A condition on both columns of a join. -/
def onBoth (join : Join) (first second : Column) (test : ColumnRef → Predicate) : List Predicate :=
  [test ⟨join, first⟩, test ⟨join, second⟩]

/-- A negated expression must fail to match both columns. -/
def regexCondition (pattern : String) (negated : Bool) (join : Join) : Predicate :=
  let clauses := onBoth join .value .handle fun c => .regex c pattern negated
  if negated then .and clauses else .or clauses

def patternCondition (kind : MatchKind) (text : String) (negated : Bool) (join : Join) :
    Predicate :=
  (Predicate.or (onBoth join .handle .value fun c => .like c kind text)).negateIf negated

def numericCondition (comparisons : List (Comparison × Float)) (all : Bool) (join : Join) :
    Predicate :=
  let clauses := comparisons.map fun (op, x) => .compare ⟨join, .value⟩ op (.number x)
  if all then .and clauses else .or clauses

def tokenCondition (token : String) (join : Join) : Predicate :=
  .or (onBoth join .handle .value fun c => .compare c .eq (.text token))

def tokensCondition (tokens : List String) (join : Join) : Predicate :=
  .or (onBoth join .handle .value fun c => .oneOf c (tokens.map .text))

/-- A join for each token, with the keys after the counter. -/
def conjunction (field : FieldId) : Nat → List String → Fragment
  | _, [] => ⟨[], []⟩
  | counter, token :: rest =>
    let join : Join := ⟨field, counter + 1⟩
    let others := conjunction field (counter + 1) rest
    ⟨join :: others.joins, tokenCondition token join :: others.conditions⟩

def buildKind (field : FieldId) (tokens : List String) (all : Bool) (counter : Nat) :
    Kind → Outcome × Nat
  | .regex pattern negated =>
    if pattern.isEmpty then (.skip, counter)
    else applyOne field counter (regexCondition pattern negated)
  | .boolean query negated =>
    match booleanQuery? query with
    | none => (.skip, counter)
    | some terms =>
      applyOne field counter fun join =>
        (Predicate.fullText ⟨join, .value⟩ terms).negateIf negated
  | .pattern kind text negated =>
    if text.isEmpty then (.skip, counter)
    else applyOne field counter (patternCondition kind text negated)
  | .numeric =>
    match tokens.filterMap numericComparison? with
    | [] => (.skip, counter)
    | comparisons => applyOne field counter (numericCondition comparisons all)
  | .conjunctive => (.applied (conjunction field counter tokens), counter + tokens.length)
  | .disjunctive => applyOne field counter (tokensCondition tokens)

/-- What a filter comes to, and the counter after it. -/
def build (field : FieldId) (tokens : List String) (all : Bool) (counter : Nat) : Outcome × Nat :=
  if tokens.isEmpty then (.skip, counter)
  else buildKind field tokens all counter (Kind.of tokens all)

/-- Adds a filter to those put together so far. -/
def Combined.add (q : Combined) (field : FieldId) (tokens : List String) (all : Bool) :
    Outcome × Combined :=
  match build field tokens all q.counter with
  | (.applied f, counter) => (.applied f, { q.append f with counter := counter })
  | (.skip, counter) => (.skip, { q with counter := counter })

end ComputedField.Filter
