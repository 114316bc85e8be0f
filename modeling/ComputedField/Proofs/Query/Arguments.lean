import ComputedField.Proofs.Query.Reads
import ComputedField.Query.Apply

/-!
# Calling functions with every index checked

A function reads some of its arguments without asking whether they are there, and how many these are is
`Function.reads`. A call is refused just when one of them is missing; every other call does what it does
without checks.
-/

namespace ComputedField.Query

open Markup (Document NodeId)
open Text

/-- How many arguments a function reads without asking whether they are there. -/
def Function.reads : Function → Nat
  | .string | .name | .localName | .normalizeSpace | .stringLength | .number => 0
  | .true | .false | .position | .last | .concat => 0
  | .count | .sum | .boolean | .not | .floor | .ceiling | .round => 1
  | .contains | .startsWith | .substringBefore | .substringAfter | .substring => 2
  | .translate => 3

theorem Function.reads_le_least (f : Function) : f.reads ≤ f.arity.least := by
  cases f <;> decide

theorem least_le_of_allows {a : Arity} {n : Nat} (h : a.allows n = true) : a.least ≤ n := by
  rw [Arity.allows, Bool.and_eq_true] at h
  exact of_decide_eq_true h.1

/-- As many of the arguments as are taken at most. -/
def Arity.taken (a : Arity) (vs : List Value) : List Value := a.most.elim vs fun most => vs.take most

/-- All arguments are taken if there may be so many. -/
theorem Arity.taken_of_allows {a : Arity} {vs : List Value} (h : a.allows vs.length = true) :
    a.taken vs = vs := by
  rw [Arity.allows, Bool.and_eq_true] at h
  cases hmost : a.most with
  | none => rw [Arity.taken, hmost, Option.elim_none]
  | some most =>
    rw [hmost, Option.all_some] at h
    rw [Arity.taken, hmost, Option.elim_some, List.take_of_length_le (of_decide_eq_true h.2)]

namespace Checked

/-- What is refused out of range, and may otherwise have no value. -/
abbrev Run (α : Type) := ExceptT Error Option α

section Calls

variable (d : Document)

def argument (vs : List Value) (i : Nat) : Option Value := vs[i]?

def textAt (vs : List Value) (i : Nat) : Option String := do toText d (← argument vs i)

def numberAt (vs : List Value) (i : Nat) : Option Float := do toNumber d (← argument vs i)

def nodesAt (place : NodesPlace) (vs : List Value) (i : Nat) : Run (List NodeId) := do
  (← argument vs i).asNodes place

def textOr (c : Context) : Option Value → Option String
  | some v => toText d v
  | none => stringValue d c.node

def nameOr (c : Context) : Option Value → Run String
  | some v => do
    match (← v.asNodes .name).head? with
    | some n => name d n
    | none => return ""
  | none => name d c.node

/-- The two sides of the first occurrence of the second argument in the first. -/
def splitArguments (vs : List Value) : Option (Option (List Char × List Char)) := do
  let whole ← textAt d vs 0
  let part ← textAt d vs 1
  return splitOnce? part.toList whole.toList

def call (c : Context) (f : Function) (vs : List Value) : Run Value :=
  match f with
  | .string => do ofText (← textOr d c vs.head?)
  | .name => do ofText (← nameOr d c vs.head?)
  | .localName => do ofText (String.ofList (localPart (← nameOr d c vs.head?).toList))
  | .count => do ofNumber (Float.ofNat (← nodesAt .count vs 0).length)
  | .concat => do
    let texts ← (vs.mapM (toText d) : Option (List String))
    ofText (String.join texts)
  | .normalizeSpace => do ofText (String.ofList (collapse (← textOr d c vs.head?).toList))
  | .contains => do ofTruth (← splitArguments d vs).isSome
  | .startsWith => do
    let whole ← textAt d vs 0
    let part ← textAt d vs 1
    ofTruth (part.toList.isPrefixOf whole.toList)
  | .substring => do
    let whole ← textAt d vs 0
    let start := round (← numberAt d vs 1)
    match argument vs 2 with
    | none => ofText (String.ofList (between start infinity whole.toList))
    | some v => do
      ofText (String.ofList (between start (start + round (← toNumber d v)) whole.toList))
  | .substringBefore => do
    ofText (String.ofList ((← splitArguments d vs).map (·.1) |>.getD []))
  | .substringAfter => do
    ofText (String.ofList ((← splitArguments d vs).map (·.2) |>.getD []))
  | .stringLength => do ofNumber (Float.ofNat (← textOr d c vs.head?).length)
  | .translate => do
    let whole ← textAt d vs 0
    let source ← textAt d vs 1
    let target ← textAt d vs 2
    ofText (String.ofList (translate source.toList target.toList whole.toList))
  | .sum => do
    let ns ← nodesAt .sum vs 0
    let texts ← (ns.mapM (stringValue d) : Option (List String))
    ofNumber (texts.foldl (fun x s => x + numberOf s) (-0.0))
  | .number => do
    match vs.head? with
    | some v => ofNumber (← toNumber d v)
    | none => ofNumber (numberOf (← stringValue d c.node))
  | .boolean => do ofTruth (← argument vs 0).toTruth
  | .not => do ofTruth (!(← argument vs 0).toTruth)
  | .true => ofTruth true
  | .false => ofTruth false
  | .position => ofNumber (Float.ofNat c.position)
  | .last => ofNumber (Float.ofNat c.size)
  | .floor => do ofNumber (← numberAt d vs 0).floor
  | .ceiling => do ofNumber (← numberAt d vs 0).ceil
  | .round => do ofNumber (round (← numberAt d vs 0))

end Calls
section Runs

variable {α β : Type} {x : Run α} {r : Except Error α}

/-- A step that is not refused goes on as it would without checks. -/
theorem run_bind {f : α → Run β} {g : α → Except Error β} (hx : x.run = some r)
    (hf : ∀ a, r = .ok a → (f a).run = some (g a)) : (x >>= f).run = some (r >>= g) := by
  rw [ExceptT.run_bind, hx]
  cases r with
  | error e => rfl
  | ok a => exact hf a rfl

theorem run_map {f : α → β} (hx : x.run = some r) :
    (x >>= fun a => pure (f a)).run = some (r.map f) := by
  rw [ExceptT.run_bind, hx]
  cases r <;> rfl

variable {o : Option α} {f : α → Run β}

theorem run_read {a : α} {s : Except Error β} (ho : o = some a) (hf : (f a).run = some s) :
    ((liftM o : Run α) >>= f).run = some s := by
  rw [ho]
  exact hf

theorem run_none (ho : o = none) : ((liftM o : Run α) >>= f).run = none := by
  rw [ho]
  rfl

theorem run_of_none (hf : ∀ a, (f a).run = none) : ((liftM o : Run α) >>= f).run = none := by
  cases o with
  | none => rfl
  | some a => exact hf a

end Runs

section Arguments

variable {d : Document} {vs : List Value} {i : Nat} (h : vs.length ≤ i)
include h

theorem argument_eq_none : argument vs i = none := List.getElem?_eq_none h

theorem textAt_eq_none : textAt d vs i = none := by
  rw [textAt, argument_eq_none h]
  rfl

theorem numberAt_eq_none : numberAt d vs i = none := by
  rw [numberAt, argument_eq_none h]
  rfl

end Arguments

section Call

variable {d : Document} {c : Context} {vs : List Value}

theorem splitArguments_eq_none (h : vs.length ≤ 1) : splitArguments d vs = none := by
  rw [splitArguments, textAt_eq_none h]
  exact Option.bind_fun_none _

/-- A call without an argument that it reads is refused. -/
theorem call_eq_none {f : Function} (h : vs.length < f.reads) : (call d c f vs).run = none := by
  cases f with
  | string | name | localName | normalizeSpace | stringLength | number => cases h
  | true | false | position | last | concat => cases h
  | count | sum | boolean | not | floor | ceiling | round =>
    obtain rfl := List.length_eq_zero_iff.mp (Nat.lt_one_iff.mp h)
    rfl
  | contains | substringBefore | substringAfter =>
    exact run_none (splitArguments_eq_none (Nat.le_of_lt_succ h))
  | startsWith => exact run_of_none fun _ => run_none (textAt_eq_none (Nat.le_of_lt_succ h))
  | substring => exact run_of_none fun _ => run_none (numberAt_eq_none (Nat.le_of_lt_succ h))
  | translate =>
    exact run_of_none fun _ => run_of_none fun _ => run_none (textAt_eq_none (Nat.le_of_lt_succ h))

variable (wf : d.WellFormed)
include wf

/-- Without an argument the node of the context stands for it, which is in range. -/
theorem textOr_eq (hc : c.node < d.size) {v? : Option Value} (h : ∀ v, v? = some v → Inside d v) :
    textOr d c v? = some (Query.textOr d c v?) := by
  cases v? with
  | none => exact stringValue_eq wf hc
  | some v => exact toText_eq wf (h v rfl)

omit wf in
theorem nameOr_eq (hc : c.node < d.size) {v? : Option Value} (h : ∀ v, v? = some v → Inside d v) :
    (nameOr d c v?).run = some (Query.nameOr d c v?) := by
  match v? with
  | none =>
    rw [nameOr, name_eq hc]
    rfl
  | some (.atom a) => rfl
  | some (.nodes []) => rfl
  | some (.nodes (n :: rest)) =>
    have hname := name_eq ((h _ rfl).nodes n List.mem_cons_self)
    exact congrArg (fun o => (liftM o : Run String).run) hname

theorem textAt_eq {i : Nat} {v : Value} (hi : vs[i]? = some v) (hv : Inside d v) :
    textAt d vs i = some (v.toText d) := by
  rw [textAt, argument, hi]
  exact toText_eq wf hv

theorem numberAt_eq {i : Nat} {v : Value} (hi : vs[i]? = some v) (hv : Inside d v) :
    numberAt d vs i = some (v.toNumber d) := by
  rw [numberAt, argument, hi]
  exact toNumber_eq wf hv

theorem splitArguments_eq {u v : Value} {rest : List Value} (hu : Inside d u) (hv : Inside d v) :
    splitArguments d (u :: v :: rest) = some (splitAt? d u v) := by
  rw [splitArguments, textAt_eq wf rfl hu, textAt_eq wf rfl hv]
  rfl

/-- With all the arguments that it reads, a function does what it does without checks; it leaves out of
account what is beyond the arguments that it takes. -/
theorem call_eq (hc : c.node < d.size) {f : Function} (h : f.reads ≤ vs.length)
    (hvs : ∀ v ∈ vs, Inside d v) :
    (call d c f vs).run = some (c.call d f (f.arity.taken vs)) := by
  have hhead : ∀ v, vs.head? = some v → Inside d v := fun v hv => hvs v (List.mem_of_mem_head? hv)
  cases f with
  | true | false | position | last => rfl
  | concat => exact run_read (mapM_eq_some fun v hv => toText_eq wf (hvs v hv)) rfl
  | string | normalizeSpace | stringLength =>
    have htext := textOr_eq wf hc hhead
    cases vs <;> exact run_read htext rfl
  | name | localName =>
    have hname := nameOr_eq hc hhead
    cases vs <;> exact run_bind hname fun _ _ => rfl
  | number =>
    match vs with
    | [] => exact run_read (stringValue_eq wf hc) rfl
    | v :: _ => exact run_read (toNumber_eq wf (hhead v rfl)) rfl
  | count =>
    match vs, h with
    | v :: _, _ => exact run_bind rfl fun _ _ => rfl
  | sum =>
    match vs, h with
    | v :: _, _ =>
      refine run_bind (r := v.asNodes .sum) rfl fun ns hns => ?_
      obtain rfl := asNodes_eq_ok hns
      have hinside := (hhead _ rfl).nodes
      refine run_read (mapM_eq_some fun n hn => stringValue_eq wf (hinside n hn)) ?_
      rw [List.foldl_map]
      rfl
  | boolean | not =>
    match vs, h with
    | v :: _, _ => rfl
  | floor | ceiling | round =>
    match vs, h with
    | v :: _, _ => exact run_read (toNumber_eq wf (hhead v rfl)) rfl
  | contains | substringBefore | substringAfter =>
    match vs, h with
    | u :: v :: _, _ => exact run_read (splitArguments_eq wf (hvs u (by simp)) (hvs v (by simp))) rfl
  | startsWith =>
    match vs, h with
    | u :: v :: _, _ =>
      exact run_read (textAt_eq wf rfl (hvs u (by simp)))
        (run_read (textAt_eq wf rfl (hvs v (by simp))) rfl)
  | substring =>
    match vs, h with
    | [u, v], _ =>
      exact run_read (textAt_eq wf rfl (hvs u (by simp)))
        (run_read (numberAt_eq wf rfl (hvs v (by simp))) rfl)
    | u :: v :: w :: _, _ =>
      exact run_read (textAt_eq wf rfl (hvs u (by simp)))
        (run_read (numberAt_eq wf rfl (hvs v (by simp)))
          (run_read (toNumber_eq wf (hvs w (by simp))) rfl))
  | translate =>
    match vs, h with
    | u :: v :: w :: _, _ =>
      exact run_read (textAt_eq wf rfl (hvs u (by simp)))
        (run_read (textAt_eq wf rfl (hvs v (by simp)))
          (run_read (textAt_eq wf rfl (hvs w (by simp))) rfl))

/-- A call is refused just when an argument is missing that its function reads. -/
theorem call_eq_none_iff (hc : c.node < d.size) {f : Function} (hvs : ∀ v ∈ vs, Inside d v) :
    (call d c f vs).run = none ↔ vs.length < f.reads := by
  refine ⟨fun hnone => ?_, call_eq_none⟩
  by_contra h
  rw [call_eq wf hc (Nat.le_of_not_lt h) hvs] at hnone
  cases hnone

end Call

end Checked

end ComputedField.Query
