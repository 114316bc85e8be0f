import ComputedField.Proofs.Query.Order
import ComputedField.Query.Compare

/-!
# Reading a document with every index checked

A document is an array in which a node is looked up by its number, and lists are cut at an index. Each
such read is made here only if it is in range, and is refused, as `none`, if it is not. In a document
that was read, nothing is refused that begins at one of its nodes, and all is read that is read without
the checks.
-/

namespace ComputedField.Query.Checked

open Markup (Document NodeId NodeKind)

section Lists

variable {α β : Type}

def sliceFrom (l : List α) (i : Nat) : Option (List α) :=
  if i ≤ l.length then some (l.drop i) else none

def sliceTo (l : List α) (i : Nat) : Option (List α) :=
  if i ≤ l.length then some (l.take i) else none

theorem mapM_eq_some {f : α → Option β} {g : α → β} {l : List α} (h : ∀ a ∈ l, f a = some (g a)) :
    l.mapM f = some (l.map g) := by
  induction l with
  | nil => rfl
  | cons a rest ih =>
    rw [List.mapM_cons, h a List.mem_cons_self, ih fun b hb => h b (List.mem_cons_of_mem a hb)]
    rfl

theorem anyM_eq_some {f : α → Option Bool} {p : α → Bool} {l : List α}
    (h : ∀ a ∈ l, f a = some (p a)) : l.anyM f = some (l.any p) := by
  induction l with
  | nil => rfl
  | cons a rest ih =>
    rw [List.anyM, h a List.mem_cons_self, ih fun b hb => h b (List.mem_cons_of_mem a hb),
      List.any_cons]
    cases p a <;> rfl

/-- The index at which a list has an element cuts it like a search for the element. -/
theorem slice_of_idxOf? {n : NodeId} {l : List NodeId} {i : Nat} (h : l.idxOf? n = some i) :
    sliceTo l i = some (l.takeWhile (· != n)) ∧
      sliceFrom l (i + 1) = some ((l.dropWhile (· != n)).drop 1) := by
  obtain ⟨hlt, hi⟩ := List.findIdx?_eq_some_iff_findIdx_eq.mp h
  have hfind : l.findIdx (fun m => !(m != n)) = i := by
    simpa only [bne, Bool.not_not] using hi
  rw [sliceTo, sliceFrom, if_pos (Nat.le_of_lt hlt), if_pos (Nat.succ_le_of_lt hlt),
    List.takeWhile_eq_take_findIdx_not, List.dropWhile_eq_drop_findIdx_not, hfind, List.drop_drop]
  exact ⟨rfl, rfl⟩

end Lists

section Reads

variable (d : Document)

def met (n : NodeId) : Option NodeId := if n < d.size then some n else none

def children (n : NodeId) : Option (List NodeId) := (d.node? n).map (·.children)

def attributes (n : NodeId) : Option (List NodeId) := (d.node? n).map (·.attributes)

def parent (n : NodeId) : Option (Option NodeId) := (d.node? n).map (·.parent)

def name (n : NodeId) : Option String := (d.node? n).map (·.name)

def text (n : NodeId) : Option (Option String) :=
  (d.node? n).map fun node => if node.kind = .text then some node.value else none

/-- The elements and texts below a node, in document order; to go deeper than given is refused, too. -/
def below : Nat → NodeId → Option (List NodeId)
  | 0, _ => none
  | depth + 1, n => do
    let parts ← (← children d n).mapM fun c => (below depth c).map (c :: ·)
    return parts.flatten

def descendants (n : NodeId) : Option (List NodeId) := below d d.size n

def stringValue (n : NodeId) : Option String := do
  let node ← d.node? n
  match node.kind with
  | .attribute | .text => return node.value
  | .root | .element =>
    let texts ← (← descendants d n).mapM (text d)
    return String.join (texts.filterMap id)

/-- The parents above a node, nearest first; more of them than given are refused, too. -/
def parentsAbove : Nat → NodeId → Option (List NodeId)
  | 0, _ => none
  | bound + 1, n => do
    match ← parent d n with
    | none => return []
    | some p => return p :: (← parentsAbove bound p)

def ancestors (n : NodeId) : Option (List NodeId) := parentsAbove d d.size n

/-- The children of the parent of a node and the index of the node among them. -/
def siblings (n : NodeId) : Option (Option (List NodeId × Nat)) := do
  if (← d.kind? n) = .attribute then return none
  match ← parent d n with
  | none => return none
  | some p =>
    let ns ← children d p
    return (ns.idxOf? n).map fun i => (ns, i)

def nodes (n : NodeId) : Axis → Option (List NodeId)
  | .child => children d n
  | .descendant => descendants d n
  | .descendantOrSelf => return n :: (← descendants d n)
  | .itself => return [n]
  | .parent => return (← parent d n).toList
  | .ancestor => ancestors d n
  | .ancestorOrSelf => return n :: (← ancestors d n)
  | .attribute => attributes d n
  | .followingSibling => do
    match ← siblings d n with
    | none => return []
    | some (ns, i) => sliceFrom ns (i + 1)
  | .precedingSibling => do
    match ← siblings d n with
    | none => return []
    | some (ns, i) => return (← sliceTo ns i).reverse

/-- Whether a test holds of a node, whose kind is read for every test. -/
def holds (axis : Axis) (test : NodeTest) (n : NodeId) : Option Bool := do
  let kind ← d.kind? n
  match test with
  | .name word => if kind == axis.principal then return (← name d n) == word else return false
  | .any => return kind == axis.principal
  | .text => return kind == .text
  | .node => return true

def keepMatching (axis : Axis) (test : NodeTest) : List NodeId → Option (List NodeId)
  | [] => some []
  | n :: rest => do
    let fits ← holds d axis test n
    let others ← keepMatching axis test rest
    return if fits then n :: others else others

def firstText (ns : List NodeId) : Option String :=
  match ns.head? with
  | none => some ""
  | some n => stringValue d n

def toText : Value → Option String
  | .nodes ns => firstText d ns
  | .atom a => some a.toText

def toNumber : Value → Option Float
  | .nodes ns => (firstText d ns).map numberOf
  | .atom a => some a.toNumber

def nodesWith (op : CompareOp) (ns : List NodeId) (a : Atom) : Option Bool :=
  match a with
  | .truth _ => some (op.atoms (.truth (!ns.isEmpty)) a)
  | _ => ns.anyM fun n => return op.atoms (.text (← stringValue d n)) a

def compare (op : CompareOp) : Value → Value → Option Bool
  | .nodes ms, .nodes ns => ms.anyM fun m => do
    let s ← stringValue d m
    ns.anyM fun n => return op.atoms (.text s) (.text (← stringValue d n))
  | .nodes ns, .atom a => nodesWith d op ns a
  | .atom a, .nodes ns => nodesWith d op.flip ns a
  | .atom a, .atom b => some (op.atoms a b)

end Reads

/-- The nodes of a value are nodes of the document. -/
def Inside (d : Document) (v : Value) : Prop := ∀ ns, v = .nodes ns → ∀ n ∈ ns, n < d.size

variable {d : Document} {n : Nat}

theorem Inside.nodes {ns : List NodeId} (h : Inside d (.nodes ns)) : ∀ n ∈ ns, n < d.size := h ns rfl

section Node

variable (hn : n < d.size)
include hn

theorem exists_node : ∃ node, d.node? n = some node := ⟨d.nodes[n], Array.getElem?_eq_getElem hn⟩

theorem met_eq : met d n = some n := if_pos hn

theorem children_eq : children d n = some (d.children n) := by
  obtain ⟨node, h⟩ := exists_node hn
  rw [children, Document.children, h, Option.map_some, Option.getD_some]

theorem attributes_eq : attributes d n = some (d.attributes n) := by
  obtain ⟨node, h⟩ := exists_node hn
  rw [attributes, Document.attributes, h, Option.map_some, Option.getD_some]

theorem parent_eq : parent d n = some (d.parent? n) := by
  obtain ⟨node, h⟩ := exists_node hn
  rw [parent, Document.parent?, h, Option.map_some, Option.bind_some]

theorem name_eq : name d n = some (d.name n) := by
  obtain ⟨node, h⟩ := exists_node hn
  rw [name, Document.name, h, Option.map_some, Option.getD_some]

theorem text_eq : text d n = some (d.text? n) := by
  obtain ⟨node, h⟩ := exists_node hn
  rw [text, Document.text?, h, Option.map_some, Option.bind_some]

theorem exists_kind : ∃ kind, d.kind? n = some kind := by
  obtain ⟨node, h⟩ := exists_node hn
  exact ⟨node.kind, by rw [Document.kind?, h, Option.map_some]⟩

/-- Tests read nothing but nodes of the document. -/
theorem holds_eq (axis : Axis) (test : NodeTest) :
    holds d axis test n = some (test.holds d axis n) := by
  obtain ⟨kind, hkind⟩ := exists_kind hn
  cases test with
  | name word =>
    simp only [holds, NodeTest.holds, hkind, name_eq hn, Option.bind_eq_bind, Option.bind_some,
      Option.some_beq_some]
    cases kind == axis.principal <;> rfl
  | any | text | node => simp [holds, NodeTest.holds, hkind]

end Node

theorem keepMatching_eq (axis : Axis) (test : NodeTest) {ns : List NodeId} (h : ∀ n ∈ ns, n < d.size) :
    keepMatching d axis test ns = some (ns.filter (test.holds d axis)) := by
  induction ns with
  | nil => rfl
  | cons n rest ih =>
    rw [keepMatching, holds_eq (h n List.mem_cons_self), ih fun m hm => h m (List.mem_cons_of_mem n hm),
      List.filter_cons]
    cases test.holds d axis n <;> rfl

section Read

variable (wf : d.WellFormed)
include wf

/-- Each child has a greater number than its parent, so no way down is longer than the numbers left. -/
theorem below_eq {depth : Nat} (hn : n < d.size) (enough : d.size ≤ n + depth) :
    below d depth n = some (d.below depth n) := by
  induction depth generalizing n with
  | zero => omega
  | succ depth ih =>
    have hparts : ∀ c ∈ d.children n, (below d depth c).map (c :: ·) = some (c :: d.below depth c) := by
      intro c hc
      have hlt : n < c := lt_of_mem_children wf hc
      rw [ih (lt_size_of_mem_children wf hc) (by omega), Option.map_some]
    simp only [below, children_eq hn, Option.bind_eq_bind, Option.bind_some, mapM_eq_some hparts]
    rfl

theorem descendants_eq (hn : n < d.size) : descendants d n = some (d.descendants n) :=
  below_eq wf hn (Nat.le_add_left _ _)

theorem stringValue_eq (hn : n < d.size) : stringValue d n = some (d.stringValue n) := by
  obtain ⟨node, h⟩ := exists_node hn
  have htexts : (d.descendants n).mapM (text d) = some ((d.descendants n).map d.text?) :=
    mapM_eq_some fun m hm => text_eq (lt_size_of_mem_below wf hm)
  simp only [stringValue, Document.stringValue, h, Option.bind_eq_bind, Option.bind_some]
  match node.kind with
  | .attribute | .text => rfl
  | .root | .element =>
    simp only [descendants_eq wf hn, Option.bind_some, htexts, List.filterMap_map]
    rfl

/-- The bound on the way up is never reached. -/
theorem parentsAbove_eq {bound : Nat} (hn : n < d.size) (enough : n < bound) :
    parentsAbove d bound n = some (Query.parentsAbove d bound n) := by
  induction bound generalizing n with
  | zero => omega
  | succ bound ih =>
    rw [parentsAbove, Query.parentsAbove, parent_eq hn]
    cases hp : d.parent? n with
    | none => rfl
    | some p =>
      have hlt := lt_of_parent? wf hp
      have hbound : p < bound := Nat.lt_of_lt_of_le hlt (Nat.le_of_lt_succ enough)
      simp only [Option.bind_eq_bind, Option.bind_some, ih (Nat.lt_trans hlt hn) hbound]
      rfl

theorem ancestors_eq (hn : n < d.size) : ancestors d n = some (Query.ancestors d n) :=
  parentsAbove_eq wf hn hn

/-- A node is found among its siblings, unless it has none. -/
theorem siblings_eq (hn : n < d.size) :
    (siblings d n = some none ∧ Query.siblings d n = []) ∨
      ∃ i, siblings d n = some (some (Query.siblings d n, i)) ∧
        (Query.siblings d n).idxOf? n = some i := by
  obtain ⟨kind, hkind⟩ := exists_kind hn
  by_cases hattribute : kind = .attribute
  · exact .inl ⟨by simp [siblings, hkind, hattribute], by simp [Query.siblings, hkind, hattribute]⟩
  · cases hp : d.parent? n with
    | none =>
      exact .inl ⟨by simp [siblings, hkind, parent_eq hn, hp], by simp [Query.siblings, hp]⟩
    | some p =>
      have hpsize := Nat.lt_trans (lt_of_parent? wf hp) hn
      have hread : siblings d n =
          some (((d.children p).idxOf? n).map fun i => (d.children p, i)) := by
        simp [siblings, hkind, hattribute, parent_eq hn, hp, children_eq hpsize]
      cases hi : (d.children p).idxOf? n with
      | none =>
        refine .inl ⟨by rw [hread, hi, Option.map_none], ?_⟩
        have hmem : n ∉ d.children p := List.idxOf?_eq_none_iff.mp hi
        simp [Query.siblings, hkind, hattribute, hp, hmem]
      | some i =>
        have hmem : n ∈ d.children p := List.isSome_idxOf?.mp (Option.isSome_of_eq_some hi)
        have hsiblings : Query.siblings d n = d.children p := by
          simp [Query.siblings, hkind, hattribute, hp, hmem]
        exact .inr ⟨i, by rw [hread, hi, hsiblings, Option.map_some], hsiblings ▸ hi⟩

/-- Along every axis, nothing out of range is read. -/
theorem nodes_eq (hn : n < d.size) (a : Axis) : nodes d n a = some (a.nodes d n) := by
  match a with
  | .child => exact children_eq hn
  | .descendant => exact descendants_eq wf hn
  | .descendantOrSelf =>
    rw [nodes, descendants_eq wf hn]
    rfl
  | .itself => rfl
  | .parent =>
    rw [nodes, parent_eq hn]
    rfl
  | .ancestor => exact ancestors_eq wf hn
  | .ancestorOrSelf =>
    rw [nodes, ancestors_eq wf hn]
    rfl
  | .attribute => exact attributes_eq hn
  | .followingSibling =>
    rw [nodes, Axis.nodes]
    obtain ⟨hread, hnil⟩ | ⟨i, hread, hi⟩ := siblings_eq wf hn
    · rw [hread, hnil]
      rfl
    · rw [hread]
      exact (slice_of_idxOf? hi).2
  | .precedingSibling =>
    rw [nodes, Axis.nodes]
    obtain ⟨hread, hnil⟩ | ⟨i, hread, hi⟩ := siblings_eq wf hn
    · rw [hread, hnil]
      rfl
    · simp only [hread, Option.bind_eq_bind, Option.bind_some, (slice_of_idxOf? hi).1]
      rfl

theorem firstText_eq {ns : List NodeId} (h : ∀ n ∈ ns, n < d.size) :
    firstText d ns = some (Value.firstText d ns) := by
  cases ns with
  | nil => rfl
  | cons n rest => exact stringValue_eq wf (h n List.mem_cons_self)

theorem toText_eq {v : Value} (h : Inside d v) : toText d v = some (v.toText d) := by
  cases v with
  | nodes ns => exact firstText_eq wf h.nodes
  | atom a => rfl

theorem toNumber_eq {v : Value} (h : Inside d v) : toNumber d v = some (v.toNumber d) := by
  cases v with
  | nodes ns => rw [toNumber, firstText_eq wf h.nodes, Option.map_some, Value.toNumber]
  | atom a => rfl

/-- Nodes of the document can be compared with anything. -/
theorem nodesWith_eq (op : CompareOp) {ns : List NodeId} (h : ∀ n ∈ ns, n < d.size) (a : Atom) :
    nodesWith d op ns a = some (op.nodesWith d ns a) := by
  cases a with
  | truth b => rfl
  | text s | number x =>
    refine anyM_eq_some fun n hn => ?_
    rw [stringValue_eq wf (h n hn)]
    rfl

/-- Comparisons read nothing out of range. -/
theorem compare_eq (op : CompareOp) {l r : Value} (hl : Inside d l) (hr : Inside d r) :
    compare d op l r = some (op.values d l r) := by
  match l, r with
  | .nodes ms, .nodes ns =>
    refine anyM_eq_some fun m hm => ?_
    simp only [stringValue_eq wf (hl.nodes m hm), Option.bind_eq_bind, Option.bind_some]
    refine anyM_eq_some fun n hn => ?_
    rw [stringValue_eq wf (hr.nodes n hn)]
    rfl
  | .nodes ns, .atom a => exact nodesWith_eq wf op hl.nodes a
  | .atom a, .nodes ns => exact nodesWith_eq wf op.flip hr.nodes a
  | .atom a, .atom b => rfl

end Read

end ComputedField.Query.Checked
