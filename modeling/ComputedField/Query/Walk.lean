import ComputedField.Markup.Document
import ComputedField.Query.Syntax

/-!
# Walking a document

The nodes that an axis reaches from a node, nearest first, and the tests that pick among them.
-/

namespace ComputedField.Query

open Markup (Document NodeId NodeKind)

variable (d : Document)

/-- The parents above a node, at most so many, nearest first. -/
def parentsAbove : Nat → NodeId → List NodeId
  | 0, _ => []
  | bound + 1, n =>
    match d.parent? n with
    | none => []
    | some p => p :: parentsAbove bound p

/-- All nodes around a node, nearest first. -/
def ancestors (n : NodeId) : List NodeId := parentsAbove d d.size n

/-- The children of the parent of a node; attributes have no siblings. -/
def siblings (n : NodeId) : List NodeId :=
  if d.kind? n = some .attribute then []
  else
    match d.parent? n with
    | none => []
    | some p => if n ∈ d.children p then d.children p else []

def Axis.nodes (n : NodeId) : Axis → List NodeId
  | .child => d.children n
  | .descendant => d.descendants n
  | .descendantOrSelf => n :: d.descendants n
  | .itself => [n]
  | .parent => (d.parent? n).toList
  | .ancestor => ancestors d n
  | .ancestorOrSelf => n :: ancestors d n
  | .attribute => d.attributes n
  | .followingSibling => ((siblings d n).dropWhile (· != n)).drop 1
  | .precedingSibling => ((siblings d n).takeWhile (· != n)).reverse

/-- The kind of node that an axis is made of. -/
def Axis.principal : Axis → NodeKind
  | .attribute => .attribute
  | _ => .element

def NodeTest.holds (axis : Axis) (n : NodeId) : NodeTest → Bool
  | .name word => d.kind? n == some axis.principal && d.name n == word
  | .any => d.kind? n == some axis.principal
  | .text => d.kind? n == some .text
  | .node => true

/-- Keeps the first of each run of equal nodes. -/
def dropRepeats : List NodeId → List NodeId
  | [] => []
  | [n] => [n]
  | m :: n :: rest => if m = n then dropRepeats (n :: rest) else m :: dropRepeats (n :: rest)

/-- The given nodes in document order, each of them once. -/
def documentOrder (ns : List NodeId) : List NodeId := dropRepeats (ns.mergeSort (· ≤ ·))

theorem mem_dropRepeats {k : NodeId} {ns : List NodeId} : k ∈ dropRepeats ns ↔ k ∈ ns := by
  fun_induction dropRepeats ns with
  | case1 => simp
  | case2 n => simp
  | case3 n rest ih => simp [ih]
  | case4 m n rest h ih => simp [ih]

theorem mem_documentOrder {k : NodeId} {ns : List NodeId} : k ∈ documentOrder ns ↔ k ∈ ns := by
  simp [documentOrder, mem_dropRepeats]

end ComputedField.Query
