import Mathlib.Data.List.Basic
import ComputedField.Proofs.Fallible
import ComputedField.Proofs.Query.Everywhere
import ComputedField.Query.Eval

/-!
# Kinds of values

What an expression looks like from outside says what kind of value it has. Evaluation fails only where
something else stands in the place of nodes; a query without such a place has a value of its kind for
every node of every document.
-/

namespace ComputedField.Query

open Markup (Document NodeId)

inductive Kind where
  | nodes
  | text
  | number
  | truth
  deriving DecidableEq, Repr

def Atom.kind : Atom → Kind
  | .text _ => .text
  | .number _ => .number
  | .truth _ => .truth

def Value.kind : Value → Kind
  | .nodes _ => .nodes
  | .atom a => a.kind

def BinaryOp.kind : BinaryOp → Kind
  | .or | .and | .compare _ => .truth
  | .arith _ => .number
  | .union => .nodes

def Function.kind : Function → Kind
  | .string | .name | .localName | .concat | .normalizeSpace => .text
  | .substring | .substringBefore | .substringAfter | .translate => .text
  | .count | .sum | .number | .stringLength => .number
  | .position | .last | .floor | .ceiling | .round => .number
  | .contains | .startsWith | .boolean | .not | .true | .false => .truth

/-- The kind that the outermost form of an expression tells. -/
def Expr.kind : Expr → Kind
  | .binary op _ _ => op.kind
  | .negate _ => .number
  | .path .. | .filter .. => .nodes
  | .literal _ => .text
  | .number _ => .number
  | .call f _ => f.kind

/-- Whether an expression is a path, a filter or a union. -/
def Expr.Selects : Expr → Prop
  | .path .. | .filter .. | .binary .union .. => True
  | _ => False

def Function.TakesNodes : Function → Prop
  | .count | .sum | .name | .localName => True
  | _ => False

/-- Whether nodes are selected where an expression needs them right below itself. -/
def Expr.NodesFit : Expr → Prop
  | .binary .union left right => left.Selects ∧ right.Selects
  | .filter primary _ _ => primary.Selects
  | .call f arguments => f.TakesNodes → ∀ e ∈ arguments, e.Selects
  | _ => True

theorem Expr.Selects.kind_eq {e : Expr} (h : e.Selects) : e.kind = .nodes := by
  match e, h with
  | .path .., _ => rfl
  | .filter .., _ => rfl
  | .binary .union .., _ => rfl

theorem Value.exists_nodes {v : Value} (h : v.kind = .nodes) : ∃ ns, v = .nodes ns := by
  match v, h with
  | .nodes ns, _ => exact ⟨ns, rfl⟩
  | .atom (.text _), h => cases h
  | .atom (.number _), h => cases h
  | .atom (.truth _), h => cases h

section Calls

/-- The arguments that a function takes when their number is bounded. -/
theorem Arity.bounds {least most n : Nat} (h : Arity.allows ⟨least, some most⟩ n = true) :
    least ≤ n ∧ n ≤ most := by
  simpa [Arity.allows] using h

variable {vs : List Value}

theorem eq_nil_or_singleton (h : vs.length ≤ 1) : vs = [] ∨ ∃ v, vs = [v] := by
  match vs with
  | [] => exact .inl rfl
  | [v] => exact .inr ⟨v, rfl⟩

/-- Given as many arguments as it takes, and nodes where it asks for them, a function has a value. -/
theorem exists_call (d : Document) (c : Context) (f : Function)
    (harity : f.arity.allows vs.length = true)
    (hnodes : f.TakesNodes → ∀ v ∈ vs, v.kind = .nodes) :
    ∃ v, c.call d f vs = .ok v ∧ v.kind = f.kind := by
  cases f with
  | true | false | position | last =>
    obtain rfl := List.length_eq_zero_iff.mp (Nat.le_zero.mp (Arity.bounds harity).2)
    exact ⟨_, rfl, rfl⟩
  | string | normalizeSpace | stringLength | number =>
    obtain rfl | ⟨v, rfl⟩ := eq_nil_or_singleton (Arity.bounds harity).2
    · exact ⟨_, rfl, rfl⟩
    · exact ⟨_, rfl, rfl⟩
  | name | localName =>
    obtain rfl | ⟨v, rfl⟩ := eq_nil_or_singleton (Arity.bounds harity).2
    · exact ⟨_, rfl, rfl⟩
    · obtain ⟨ns, rfl⟩ := Value.exists_nodes (hnodes trivial v List.mem_cons_self)
      exact ⟨_, rfl, rfl⟩
  | count | sum =>
    obtain ⟨hleast, hmost⟩ := Arity.bounds harity
    obtain ⟨v, rfl⟩ := List.length_eq_one_iff.mp (Nat.le_antisymm hmost hleast)
    obtain ⟨ns, rfl⟩ := Value.exists_nodes (hnodes trivial v List.mem_cons_self)
    exact ⟨_, rfl, rfl⟩
  | boolean | not | floor | ceiling | round =>
    obtain ⟨hleast, hmost⟩ := Arity.bounds harity
    obtain ⟨v, rfl⟩ := List.length_eq_one_iff.mp (Nat.le_antisymm hmost hleast)
    exact ⟨_, rfl, rfl⟩
  | contains | startsWith | substringBefore | substringAfter =>
    obtain ⟨hleast, hmost⟩ := Arity.bounds harity
    obtain ⟨v, w, rfl⟩ := List.length_eq_two.mp (Nat.le_antisymm hmost hleast)
    exact ⟨_, rfl, rfl⟩
  | substring =>
    obtain ⟨hleast, hmost⟩ := Arity.bounds harity
    match vs with
    | [u, v] => exact ⟨_, rfl, rfl⟩
    | [u, v, w] => exact ⟨_, rfl, rfl⟩
  | translate =>
    obtain ⟨hleast, hmost⟩ := Arity.bounds harity
    obtain ⟨u, v, w, rfl⟩ := List.length_eq_three.mp (Nat.le_antisymm hmost hleast)
    exact ⟨_, rfl, rfl⟩
  | concat => exact ⟨_, rfl, rfl⟩

/-- A function has values of one kind, whatever its arguments are. -/
theorem kind_of_call {d : Document} {c : Context} {f : Function} {vs : List Value} {v : Value}
    (h : c.call d f vs = .ok v) : v.kind = f.kind := by
  unfold Context.call at h
  split at h
  -- A branch yields a value of the function's kind at once, or behind an argument, or it refuses.
  all_goals first
    | exact (congrArg Value.kind (Except.ok.inj h)).symm
    | exact (ok_of_bind h).elim fun _ h => (congrArg Value.kind (Except.ok.inj h.2)).symm
    | cases h

end Calls

section Selections

/-- Nothing fails while nodes are kept or dropped if no judgement fails. -/
theorem exists_keepFrom {judge : Context → Except Error Value} (h : ∀ c, ∃ v, judge c = .ok v)
    (size position : Nat) (ns : List NodeId) :
    ∃ kept, keepFrom judge size position ns = .ok kept := by
  induction ns generalizing position with
  | nil => exact ⟨[], rfl⟩
  | cons n rest ih =>
    obtain ⟨v, hv⟩ := h ⟨n, position, size⟩
    obtain ⟨kept, hkept⟩ := ih (position + 1)
    rw [keepFrom, hv, hkept]
    exact ⟨_, rfl⟩

theorem exists_gather {select : NodeId → Except Error (List NodeId)}
    (h : ∀ n, ∃ ns, select n = .ok ns) (ns : List NodeId) : ∃ all, gather select ns = .ok all := by
  induction ns with
  | nil => exact ⟨[], rfl⟩
  | cons n rest ih =>
    obtain ⟨here, hhere⟩ := h n
    obtain ⟨there, hthere⟩ := ih
    rw [gather, hhere, hthere]
    exact ⟨_, rfl⟩

end Selections

/-- A value is of the kind that the outermost form of its expression tells. -/
theorem kind_of_eval {d : Document} {c : Context} {e : Expr} {v : Value} (h : e.eval d c = .ok v) :
    v.kind = e.kind := by
  match e with
  | .binary .or left right =>
    obtain ⟨l, -, h⟩ := ok_of_bind h
    split at h
    · cases h
      rfl
    · obtain ⟨r, -, h⟩ := ok_of_bind h
      cases h
      rfl
  | .binary .and left right =>
    obtain ⟨l, -, h⟩ := ok_of_bind h
    split at h
    · obtain ⟨r, -, h⟩ := ok_of_bind h
      cases h
      rfl
    · cases h
      rfl
  | .binary (.compare op) left right | .binary (.arith op) left right =>
    obtain ⟨l, -, h⟩ := ok_of_bind h
    obtain ⟨r, -, h⟩ := ok_of_bind h
    cases h
    rfl
  | .binary .union left right =>
    obtain ⟨l, -, h⟩ := ok_of_bind h
    obtain ⟨ms, -, h⟩ := ok_of_bind h
    obtain ⟨r, -, h⟩ := ok_of_bind h
    obtain ⟨ns, -, h⟩ := ok_of_bind h
    cases h
    rfl
  | .negate e =>
    obtain ⟨w, -, h⟩ := ok_of_bind h
    cases h
    rfl
  | .path absolute steps =>
    obtain ⟨ns, -, rfl⟩ := ok_of_map h
    rfl
  | .filter primary predicates steps =>
    obtain ⟨w, -, h⟩ := ok_of_bind h
    obtain ⟨ns, -, h⟩ := ok_of_bind h
    obtain ⟨kept, -, h⟩ := ok_of_bind h
    obtain ⟨reached, -, h⟩ := ok_of_bind h
    cases h
    rfl
  | .literal s =>
    cases h
    rfl
  | .number x =>
    cases h
    rfl
  | .call f arguments =>
    obtain ⟨vs, -, h⟩ := ok_of_bind h
    exact kind_of_call h

theorem Expr.Selects.exists_asNodes {e : Expr} {v : Value} (h : e.Selects) (hv : v.kind = e.kind)
    (place : NodesPlace) : ∃ ns, v.asNodes place = .ok ns := by
  obtain ⟨ns, rfl⟩ := Value.exists_nodes (hv.trans h.kind_eq)
  exact ⟨ns, rfl⟩

variable (d : Document)

mutual

/-- An expression in which nodes stand where they are needed has a value of its kind. -/
theorem exists_eval (e : Expr) (harity : e.Everywhere Expr.ArityFits)
    (hnodes : e.Everywhere Expr.NodesFit) (c : Context) :
    ∃ v, e.eval d c = .ok v ∧ v.kind = e.kind := by
  match e with
  | .binary op left right =>
    obtain ⟨l, hl, hkl⟩ := exists_eval left harity.2.1 hnodes.2.1 c
    obtain ⟨r, hr, hkr⟩ := exists_eval right harity.2.2 hnodes.2.2 c
    -- `or` and `and` may not ask for the right side, which has a value all the same.
    cases op with
    | or =>
      refine ⟨.atom (.truth (l.toTruth || r.toTruth)), ?_, rfl⟩
      rw [Expr.eval, hl, hr]
      cases h : l.toTruth <;> simp [bind, Except.bind, ofTruth, h]
    | and =>
      refine ⟨.atom (.truth (l.toTruth && r.toTruth)), ?_, rfl⟩
      rw [Expr.eval, hl, hr]
      cases h : l.toTruth <;> simp [bind, Except.bind, ofTruth, h]
    | compare op =>
      rw [Expr.eval, hl, hr]
      exact ⟨_, rfl, rfl⟩
    | arith op =>
      rw [Expr.eval, hl, hr]
      exact ⟨_, rfl, rfl⟩
    | union =>
      obtain ⟨ms, hms⟩ := hnodes.1.1.exists_asNodes hkl .union
      obtain ⟨ns, hns⟩ := hnodes.1.2.exists_asNodes hkr .union
      refine ⟨.nodes (documentOrder (ms ++ ns)), ?_, rfl⟩
      simp only [Expr.eval, hl, hr, hms, hns, bind, Except.bind]
      rfl
  | .negate e =>
    obtain ⟨v, hv, -⟩ := exists_eval e harity.2 hnodes.2 c
    rw [Expr.eval, hv]
    exact ⟨_, rfl, rfl⟩
  | .path absolute steps =>
    obtain ⟨ns, hns⟩ := exists_walk steps harity.2 hnodes.2
      [if absolute then Document.root else c.node]
    rw [Expr.eval, hns]
    exact ⟨_, rfl, rfl⟩
  | .filter primary predicates steps =>
    obtain ⟨v, hv, hkind⟩ := exists_eval primary harity.2.1 hnodes.2.1 c
    obtain ⟨ns, hns⟩ := Expr.Selects.exists_asNodes hnodes.1 hkind .filter
    obtain ⟨kept, hkept⟩ := exists_narrow predicates harity.2.2.1 hnodes.2.2.1 ns
    obtain ⟨reached, hreached⟩ := exists_walk steps harity.2.2.2 hnodes.2.2.2 kept
    refine ⟨.nodes reached, ?_, rfl⟩
    simp only [Expr.eval, hv, hns, hkept, hreached, bind, Except.bind]
    rfl
  | .literal s => exact ⟨_, rfl, rfl⟩
  | .number x => exact ⟨_, rfl, rfl⟩
  | .call f arguments =>
    obtain ⟨vs, hvs, hkinds⟩ := exists_evalAll arguments harity.2 hnodes.2 c
    have hlength : vs.length = arguments.length := by simpa using congrArg List.length hkinds
    have hallowed : f.arity.allows vs.length = true := by
      rw [hlength]
      exact harity.1
    have hselected : f.TakesNodes → ∀ v ∈ vs, v.kind = .nodes := by
      intro hf v hv
      have hmem : v.kind ∈ arguments.map Expr.kind := hkinds ▸ List.mem_map_of_mem hv
      obtain ⟨e, he, hkind⟩ := List.mem_map.mp hmem
      rw [← hkind, (hnodes.1 hf e he).kind_eq]
    obtain ⟨v, hv, hkind⟩ := exists_call d c f hallowed hselected
    rw [Expr.eval, hvs]
    exact ⟨v, hv, hkind⟩

/-- Arguments have values of the kinds that they tell. -/
theorem exists_evalAll (es : List Expr) (harity : InAll Expr.ArityFits es)
    (hnodes : InAll Expr.NodesFit es) (c : Context) :
    ∃ vs, evalAll d es c = .ok vs ∧ vs.map Value.kind = es.map Expr.kind := by
  match es with
  | [] => exact ⟨[], rfl, rfl⟩
  | e :: rest =>
    obtain ⟨v, hv, hkind⟩ := exists_eval e harity.1 hnodes.1 c
    obtain ⟨vs, hvs, hkinds⟩ := exists_evalAll rest harity.2 hnodes.2 c
    rw [evalAll, hv, hvs]
    exact ⟨v :: vs, rfl, by rw [List.map_cons, List.map_cons, hkind, hkinds]⟩

/-- Predicates do not fail. -/
theorem exists_narrow (ps : List Expr) (harity : InAll Expr.ArityFits ps)
    (hnodes : InAll Expr.NodesFit ps) (ns : List NodeId) :
    ∃ kept, narrow d ps ns = .ok kept := by
  match ps with
  | [] => exact ⟨ns, rfl⟩
  | p :: rest =>
    have hp : ∀ c, ∃ v, p.eval d c = .ok v := fun c =>
      (exists_eval p harity.1 hnodes.1 c).imp fun v hv => hv.1
    obtain ⟨kept, hkept⟩ := exists_keepFrom hp ns.length 1 ns
    obtain ⟨narrowed, hnarrowed⟩ := exists_narrow rest harity.2 hnodes.2 kept
    rw [narrow, keep, hkept]
    exact ⟨narrowed, hnarrowed⟩

theorem exists_select (s : Step) (harity : s.Inside Expr.ArityFits)
    (hnodes : s.Inside Expr.NodesFit) (n : NodeId) : ∃ ns, s.select d n = .ok ns := by
  match s with
  | .mk axis test predicates => exact exists_narrow predicates harity hnodes _

/-- Steps do not fail, whatever is in their predicates. -/
theorem exists_walk (ss : List Step) (harity : InSteps Expr.ArityFits ss)
    (hnodes : InSteps Expr.NodesFit ss) (ns : List NodeId) : ∃ reached, walk d ss ns = .ok reached := by
  match ss with
  | [] => exact ⟨ns, rfl⟩
  | s :: rest =>
    obtain ⟨here, hhere⟩ := exists_gather (exists_select s harity.1 hnodes.1) ns
    obtain ⟨reached, hreached⟩ := exists_walk rest harity.2 hnodes.2 (documentOrder here)
    rw [walk, hhere]
    exact ⟨reached, hreached⟩

end

/-- A query that selects nodes wherever it needs some has a value for every node of every document,
and of the kind that its outermost form tells. -/
theorem exists_eval_of_parse {query : String} {e : Expr} (h : Expr.parse query = .ok e)
    (hnodes : e.Everywhere Expr.NodesFit) (c : Context) :
    ∃ v, e.eval d c = .ok v ∧ v.kind = e.kind :=
  exists_eval d e (arityFits_of_parse h) hnodes c

/-- A filtered union that is counted, with a name asked for in its predicate. -/
theorem exists_eval_count_union :
    ∃ e, Expr.parse "count((a|b)[name(.)])" = .ok e ∧ e.Everywhere Expr.NodesFit ∧
      ∃ v, e.eval (Document.ofContent [.element "a" [] []]) .ofRoot = .ok v ∧ v.kind = .number := by
  have hscan : tokensAfter none "count((a|b)[name(.)])".toList =
      .ok [.name "count", .openParen, .openParen, .name "a", .operator .union, .name "b", .closeParen,
        .openBracket, .name "name", .openParen, .dot, .closeParen, .closeBracket, .closeParen] := by
    cbv
  have hparse : Expr.parse "count((a|b)[name(.)])" =
      .ok (.call .count [.filter
        (.binary .union (.path false [.mk .child (.name "a") []])
          (.path false [.mk .child (.name "b") []]))
        [.call .name [.path false [.mk .itself .node []]]] []]) := by
    rw [Expr.parse, tokenize, hscan]
    cbv
  have hnodes : (Expr.call .count [.filter
      (.binary .union (.path false [.mk .child (.name "a") []])
        (.path false [.mk .child (.name "b") []]))
      [.call .name [.path false [.mk .itself .node []]]] []]).Everywhere Expr.NodesFit := by
    simp [Expr.Everywhere, InAll, InSteps, Step.Inside, Expr.NodesFit, Expr.Selects]
  exact ⟨_, hparse, hnodes, exists_eval_of_parse _ hparse hnodes .ofRoot⟩

end ComputedField.Query
