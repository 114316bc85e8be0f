import ComputedField.Proofs.Query.Arguments
import ComputedField.Proofs.Query.Axes
import ComputedField.Proofs.Query.Kind

/-!
# Evaluation with every index checked

`Checked.eval` evaluates as `Expr.eval` does, but looks nodes and arguments up only where there are
some: it is refused as soon as it meets a number that no node has, reads an argument that is not there
or cuts a list behind its end. What parses is never refused in a document that was read, since each
function is called with all the arguments that it reads and no axis leads out of the document.
-/

namespace ComputedField.Query

open Markup (Document NodeId)

/-- Whether a call has all the arguments that its function reads. -/
def Expr.ReadsFit : Expr → Prop
  | .call f arguments => f.reads ≤ arguments.length
  | _ => True

namespace Checked

section Evaluation

variable (d : Document)

def keepFrom (judge : Context → Run Value) (size : Nat) : Nat → List NodeId → Run (List NodeId)
  | _, [] => return []
  | position, n :: rest => do
    let v ← judge ⟨← met d n, position, size⟩
    let kept ← keepFrom judge size (position + 1) rest
    return if v.keeps position then n :: kept else kept

def keep (judge : Context → Run Value) (ns : List NodeId) : Run (List NodeId) :=
  keepFrom d judge ns.length 1 ns

def gather (select : NodeId → Run (List NodeId)) : List NodeId → Run (List NodeId)
  | [] => return []
  | n :: rest => do
    let here ← select n
    let there ← gather select rest
    return here ++ there

mutual

def eval : Expr → Context → Run Value
  | .binary .or left right, c => do
    if (← eval left c).toTruth then ofTruth true else ofTruth (← eval right c).toTruth
  | .binary .and left right, c => do
    if (← eval left c).toTruth then ofTruth (← eval right c).toTruth else ofTruth false
  | .binary (.compare op) left right, c => do
    let l ← eval left c
    let r ← eval right c
    ofTruth (← compare d op l r)
  | .binary (.arith op) left right, c => do
    let l ← eval left c
    let r ← eval right c
    ofNumber (op.apply (← toNumber d l) (← toNumber d r))
  | .binary .union left right, c => do
    let l ← (← eval left c).asNodes .union
    let r ← (← eval right c).asNodes .union
    return .nodes (documentOrder (l ++ r))
  | .negate e, c => do ofNumber (-(← toNumber d (← eval e c)))
  | .path absolute steps, c => do
    let start ← met d (if absolute then Document.root else c.node)
    return .nodes (← walk steps [start])
  | .filter primary predicates steps, c => do
    let ns ← (← eval primary c).asNodes .filter
    let kept ← narrow predicates ns
    return .nodes (← walk steps kept)
  | .literal s, _ => ofText s
  | .number x, _ => ofNumber x
  | .call f arguments, c => do call d c f (← evalAll arguments c)

def evalAll : List Expr → Context → Run (List Value)
  | [], _ => return []
  | e :: rest, c => do
    let v ← eval e c
    let vs ← evalAll rest c
    return v :: vs

def narrow : List Expr → List NodeId → Run (List NodeId)
  | [], ns => return ns
  | p :: rest, ns => do
    let kept ← keep d (eval p) ns
    narrow rest kept

def select : Step → NodeId → Run (List NodeId)
  | .mk axis test predicates, n => do
    let ns ← nodes d n axis
    let fitting ← keepMatching d axis test ns
    narrow predicates fitting

def walk : List Step → List NodeId → Run (List NodeId)
  | [], ns => return ns
  | s :: rest, ns => do
    let reached ← gather (select s) ns
    walk rest (documentOrder reached)

end

end Evaluation

section Selections

variable {d : Document} {ns : List NodeId}

/-- If no judgement is refused, nor is keeping what is judged well. -/
theorem keepFrom_eq {judge : Context → Run Value} {judge' : Context → Except Error Value}
    (h : ∀ c : Context, c.node < d.size → (judge c).run = some (judge' c))
    (hns : ∀ n ∈ ns, n < d.size) (size position : Nat) :
    (keepFrom d judge size position ns).run = some (Query.keepFrom judge' size position ns) := by
  induction ns generalizing position with
  | nil => rfl
  | cons n rest ih =>
    have hn := hns n List.mem_cons_self
    have hrest := ih fun m hm => hns m (List.mem_cons_of_mem n hm)
    exact run_read (met_eq hn)
      (run_bind (h ⟨n, position, size⟩ hn) fun v _ => run_bind (hrest (position + 1)) fun _ _ => rfl)

/-- If no node is refused, nor is gathering what they lead to. -/
theorem gather_eq {select : NodeId → Run (List NodeId)}
    {select' : NodeId → Except Error (List NodeId)}
    (h : ∀ n ∈ ns, (select n).run = some (select' n)) :
    (gather select ns).run = some (Query.gather select' ns) := by
  induction ns with
  | nil => rfl
  | cons n rest ih =>
    have hrest := ih fun m hm => h m (List.mem_cons_of_mem n hm)
    exact run_bind (h n List.mem_cons_self) fun _ _ => run_bind hrest fun _ _ => rfl

end Selections

section Evaluated

variable {d : Document} (wf : d.WellFormed)
include wf

theorem inside_of_eval {c : Context} (hc : c.node < d.size) {e : Expr} {v : Value}
    (h : e.eval d c = .ok v) : Inside d v := by
  rintro ns rfl
  exact (ordered_eval wf hc h).inside

theorem inside_of_evalAll {c : Context} (hc : c.node < d.size) {es : List Expr} {vs : List Value}
    (h : Query.evalAll d es c = .ok vs) : vs.length = es.length ∧ ∀ v ∈ vs, Inside d v := by
  induction es generalizing vs with
  | nil =>
    cases h
    exact ⟨rfl, fun v hv => nomatch hv⟩
  | cons e rest ih =>
    obtain ⟨v, hv, h⟩ := ok_of_bind h
    obtain ⟨others, hothers, h⟩ := ok_of_bind h
    cases h
    obtain ⟨hlength, hinside⟩ := ih hothers
    exact ⟨congrArg Nat.succ hlength, List.forall_mem_cons.mpr ⟨inside_of_eval wf hc hv, hinside⟩⟩

end Evaluated

section Whole

variable {d : Document}

mutual

/-- An expression whose calls have the arguments that they take is evaluated without refusal for a node
of the document. -/
theorem eval_eq (wf : d.WellFormed) (e : Expr) (harity : e.Everywhere Expr.ArityFits) (c : Context)
    (hc : c.node < d.size) : (eval d e c).run = some (e.eval d c) := by
  match e with
  | .binary .or left right =>
    refine run_bind (eval_eq wf left harity.2.1 c hc) fun l _ => ?_
    split
    · rfl
    · exact run_bind (eval_eq wf right harity.2.2 c hc) fun r _ => rfl
  | .binary .and left right =>
    refine run_bind (eval_eq wf left harity.2.1 c hc) fun l _ => ?_
    split
    · exact run_bind (eval_eq wf right harity.2.2 c hc) fun r _ => rfl
    · rfl
  | .binary (.compare op) left right =>
    refine run_bind (eval_eq wf left harity.2.1 c hc) fun l hl => ?_
    refine run_bind (eval_eq wf right harity.2.2 c hc) fun r hr => ?_
    exact run_read (compare_eq wf op (inside_of_eval wf hc hl) (inside_of_eval wf hc hr)) rfl
  | .binary (.arith op) left right =>
    refine run_bind (eval_eq wf left harity.2.1 c hc) fun l hl => ?_
    refine run_bind (eval_eq wf right harity.2.2 c hc) fun r hr => ?_
    exact run_read (toNumber_eq wf (inside_of_eval wf hc hl))
      (run_read (toNumber_eq wf (inside_of_eval wf hc hr)) rfl)
  | .binary .union left right =>
    refine run_bind (eval_eq wf left harity.2.1 c hc) fun l _ => ?_
    refine run_bind rfl fun ms _ => ?_
    refine run_bind (eval_eq wf right harity.2.2 c hc) fun r _ => ?_
    exact run_bind rfl fun ns _ => rfl
  | .negate e =>
    refine run_bind (eval_eq wf e harity.2 c hc) fun v hv => ?_
    exact run_read (toNumber_eq wf (inside_of_eval wf hc hv)) rfl
  | .path absolute steps =>
    have hstart : (if absolute then Document.root else c.node) < d.size := by
      split
      · exact lt_size_of_kind? wf.root.1
      · exact hc
    refine run_read (met_eq hstart) (run_map (walk_eq wf steps harity.2 _ fun n hn => ?_))
    rwa [List.mem_singleton.mp hn]
  | .filter primary predicates steps =>
    refine run_bind (eval_eq wf primary harity.2.1 c hc) fun v hv => ?_
    refine run_bind rfl fun ns hns => ?_
    obtain rfl := asNodes_eq_ok hns
    have hinside := (inside_of_eval wf hc hv).nodes
    refine run_bind (narrow_eq wf predicates harity.2.2.1 ns hinside) fun kept hkept => ?_
    have hkeptInside : ∀ n ∈ kept, n < d.size := fun n hn =>
      hinside n ((sublist_of_narrow hkept).mem hn)
    exact run_bind (walk_eq wf steps harity.2.2.2 kept hkeptInside) fun _ _ => rfl
  | .literal s => rfl
  | .number x => rfl
  | .call f arguments =>
    refine run_bind (evalAll_eq wf arguments harity.2 c hc) fun vs hvs => ?_
    obtain ⟨hlength, hinside⟩ := inside_of_evalAll wf hc hvs
    have hallowed : f.arity.allows vs.length = true := by
      rw [hlength]
      exact harity.1
    have hreads := Nat.le_trans f.reads_le_least (least_le_of_allows hallowed)
    rw [call_eq wf hc hreads hinside, Arity.taken_of_allows hallowed]

theorem evalAll_eq (wf : d.WellFormed) (es : List Expr) (harity : InAll Expr.ArityFits es)
    (c : Context) (hc : c.node < d.size) : (evalAll d es c).run = some (Query.evalAll d es c) := by
  match es with
  | [] => rfl
  | e :: rest =>
    exact run_bind (eval_eq wf e harity.1 c hc) fun v _ =>
      run_bind (evalAll_eq wf rest harity.2 c hc) fun vs _ => rfl

/-- Predicates are never refused for nodes of the document. -/
theorem narrow_eq (wf : d.WellFormed) (ps : List Expr) (harity : InAll Expr.ArityFits ps)
    (ns : List NodeId) (hns : ∀ n ∈ ns, n < d.size) :
    (narrow d ps ns).run = some (Query.narrow d ps ns) := by
  match ps with
  | [] => rfl
  | p :: rest =>
    refine run_bind (keepFrom_eq (eval_eq wf p harity.1) hns ns.length 1) fun kept hkept => ?_
    exact narrow_eq wf rest harity.2 kept fun n hn => hns n ((sublist_of_keepFrom hkept).mem hn)

theorem select_eq (wf : d.WellFormed) (s : Step) (harity : s.Inside Expr.ArityFits) (n : NodeId)
    (hn : n < d.size) : (select d s n).run = some (s.select d n) := by
  match s with
  | .mk axis test predicates =>
    have hnodes : ∀ m ∈ axis.nodes d n, m < d.size := fun m => lt_size_of_mem_nodes wf hn
    refine run_read (nodes_eq wf hn axis) (run_read (keepMatching_eq axis test hnodes) ?_)
    exact narrow_eq wf predicates harity _ fun m hm => hnodes m (List.mem_of_mem_filter hm)

/-- Steps are never refused. -/
theorem walk_eq (wf : d.WellFormed) (ss : List Step) (harity : InSteps Expr.ArityFits ss)
    (ns : List NodeId) (hns : ∀ n ∈ ns, n < d.size) :
    (walk d ss ns).run = some (Query.walk d ss ns) := by
  match ss with
  | [] => rfl
  | s :: rest =>
    have hselect : ∀ n ∈ ns, (select d s n).run = some (s.select d n) := fun n hn =>
      select_eq wf s harity.1 n (hns n hn)
    refine run_bind (gather_eq hselect) fun reached hreached => ?_
    refine walk_eq wf rest harity.2 (documentOrder reached) fun m hm => ?_
    obtain ⟨n, hn, here, hhere, hm⟩ := mem_of_gather hreached (mem_documentOrder.mp hm)
    exact lt_size_of_select wf (hns n hn) hhere hm

end

end Whole

/-- A path is refused if it starts at no node of the document. -/
theorem eval_path_eq_none {d : Document} {c : Context} (h : d.size ≤ c.node) (steps : List Step) :
    (eval d (.path false steps) c).run = none :=
  run_none (if_neg (Nat.not_lt_of_le h))

end Checked

theorem Expr.ArityFits.readsFit {e : Expr} (h : e.ArityFits) : e.ReadsFit := by
  match e, h with
  | .call f arguments, h => exact Nat.le_trans f.reads_le_least (least_le_of_allows h)
  | .binary .., _ | .negate _, _ | .path .., _ | .filter .., _ | .literal _, _ | .number _, _ => trivial

/-- Nothing in a query that parses is looked up where there is nothing: its calls have all the arguments
that they read, axes lead only to nodes of a document that was read, a node that is no attribute is
among the children of its parent, and evaluation is not refused. -/
theorem eval_in_range {query : String} {e : Expr} {d : Document} (h : Expr.parse query = .ok e)
    (hd : d = .empty ∨ ∃ text, Document.parse text = .ok d) :
    e.Everywhere Expr.ReadsFit ∧
    (∀ n p, d.kind? n ≠ some .attribute → d.parent? n = some p → n ∈ d.children p) ∧
    Document.root < d.size ∧
    (∀ n < d.size, ∀ a : Axis, ∀ m ∈ a.nodes d n, m < d.size) ∧
    ∀ c : Context, c.node < d.size →
      (∀ ns, e.eval d c = .ok (.nodes ns) → ∀ n ∈ ns, n < d.size) ∧
      (Checked.eval d e c).run = some (e.eval d c) := by
  have wf := wellFormed_of_empty_or_parse hd
  have harity := arityFits_of_parse h
  refine ⟨harity.imp fun f => Expr.ArityFits.readsFit, fun n p hkind hparent => ?_,
    lt_size_of_kind? wf.root.1, fun n hn a m => lt_size_of_mem_nodes wf hn, fun c hc => ⟨?_, ?_⟩⟩
  · exact (mem_children_iff wf).mpr ⟨hkind, hparent⟩
  · exact fun ns hns => (ordered_eval wf hc hns).inside
  · exact Checked.eval_eq wf e harity c hc

set_option maxRecDepth 2000 in
/-- The last of two siblings, which a call with a path of its own picks out. -/
theorem eval_in_range_last_sibling :
    ∃ (d : Document) (e : Expr), Document.parse "<r><a/><b/></r>" = .ok d ∧
      Expr.parse "r/*[not(following-sibling::*)]" = .ok e ∧ e.Everywhere Expr.ReadsFit ∧
      Context.ofRoot.node < d.size ∧
      (Checked.eval d e .ofRoot).run = some (.ok (.nodes [3])) := by
  have hd : Document.parse "<r><a/><b/></r>" =
      .ok (.ofContent [.element "r" [] [.element "a" [] [], .element "b" [] []]]) := by
    decide +kernel
  have hscan : tokensAfter none "r/*[not(following-sibling::*)]".toList =
      .ok [.name "r", .slash, .star, .openBracket, .name "not", .openParen, .name "following-sibling",
        .doubleColon, .star, .closeParen, .closeBracket] := by
    cbv
  have hparse : Expr.parse "r/*[not(following-sibling::*)]" =
      .ok (.path false [.mk .child (.name "r") [],
        .mk .child .any [.call .not [.path false [.mk .followingSibling .any []]]]]) := by
    rw [Expr.parse, tokenize, hscan]
    cbv
  have heval : (Expr.path false [.mk .child (.name "r") [],
      .mk .child .any [.call .not [.path false [.mk .followingSibling .any []]]]]).eval
        (.ofContent [.element "r" [] [.element "a" [] [], .element "b" [] []]]) .ofRoot =
      .ok (.nodes [3]) := by
    cbv
  have hsize : Context.ofRoot.node <
      (Document.ofContent [.element "r" [] [.element "a" [] [], .element "b" [] []]]).size := by
    decide +kernel
  obtain ⟨hreads, -, -, -, hrun⟩ := eval_in_range hparse (.inr ⟨_, hd⟩)
  exact ⟨_, _, hd, hparse, hreads, hsize, (hrun .ofRoot hsize).2.trans (congrArg some heval)⟩

end ComputedField.Query
