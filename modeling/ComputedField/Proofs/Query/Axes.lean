import Mathlib.Logic.Relation
import ComputedField.Proofs.Query.Order

/-!
# Axes as relations between nodes

Where an axis leads is decided by parents alone: `Axis.Reaches` says it without lists. In a document
that was read, the nodes of an axis are just those that it reaches, and they come nearest first: an
axis that goes back through the document lists them downwards, every other upwards.
-/

namespace ComputedField.Query

open Markup (Document NodeId NodeKind)

/-- Whether parents lead from `n` to `top`, in one step or more. -/
def Encloses (d : Document) (top n : NodeId) : Prop :=
  Relation.TransGen (fun m p => d.parent? m = some p) n top

/-- Whether two nodes, neither of them an attribute, have one parent. -/
structure AreSiblings (d : Document) (n m : NodeId) : Prop where
  parent : ∃ p, d.parent? n = some p ∧ d.parent? m = some p
  left : d.kind? n ≠ some .attribute
  right : d.kind? m ≠ some .attribute

/-- Where `m` stands if the axis leads from `n` to it. -/
def Axis.Reaches (d : Document) (n m : NodeId) : Axis → Prop
  | .child => d.kind? m ≠ some .attribute ∧ d.parent? m = some n
  | .descendant => d.kind? m ≠ some .attribute ∧ Encloses d n m
  | .descendantOrSelf => m = n ∨ d.kind? m ≠ some .attribute ∧ Encloses d n m
  | .itself => m = n
  | .parent => d.parent? n = some m
  | .ancestor => Encloses d m n
  | .ancestorOrSelf => m = n ∨ Encloses d m n
  | .attribute => d.kind? m = some .attribute ∧ d.parent? m = some n
  | .followingSibling => AreSiblings d n m ∧ n < m
  | .precedingSibling => AreSiblings d n m ∧ m < n

def Axis.Before (a : Axis) (m n : NodeId) : Prop := if a.isReverse then n < m else m < n

theorem AreSiblings.symm {d : Document} {n m : NodeId} (h : AreSiblings d n m) :
    AreSiblings d m n := by
  obtain ⟨⟨p, hn, hm⟩, left, right⟩ := h
  exact ⟨⟨p, hm, hn⟩, right, left⟩

section Parents

variable {d : Document} {top m n : Nat}

theorem Encloses.lt_size (h : Encloses d top n) : n < d.size := by
  induction h using Relation.TransGen.head_induction_on with
  | single hparent => exact lt_size_of_parent? hparent
  | head hparent => exact lt_size_of_parent? hparent

variable (wf : d.WellFormed)
include wf

/-- A node is a child or an attribute of its parent. -/
theorem mem_of_parent? (h : d.parent? m = some n) : m ∈ d.children n ++ d.attributes n := by
  have hm : m ≠ Document.root := by
    rintro rfl
    rw [wf.root.2] at h
    cases h
  obtain ⟨p, -, hp, hcount⟩ := wf.parent m (Nat.pos_of_ne_zero hm) (lt_size_of_parent? h)
  cases hp.symm.trans h
  apply List.count_pos_iff.mp
  omega

/-- The children are all nodes with this parent that are no attributes. -/
theorem mem_children_iff :
    m ∈ d.children n ↔ d.kind? m ≠ some .attribute ∧ d.parent? m = some n := by
  constructor
  · intro h
    obtain ⟨hparent, hkind⟩ := wf.children n m h
    refine ⟨?_, hparent⟩
    rcases hkind with hkind | hkind <;> simp [hkind]
  · rintro ⟨hkind, hparent⟩
    rcases List.mem_append.mp (mem_of_parent? wf hparent) with h | h
    · exact h
    · exact absurd (wf.attributes n m h).2 hkind

theorem mem_attributes_iff :
    m ∈ d.attributes n ↔ d.kind? m = some .attribute ∧ d.parent? m = some n := by
  constructor
  · intro h
    obtain ⟨hparent, hkind⟩ := wf.attributes n m h
    exact ⟨hkind, hparent⟩
  · rintro ⟨hkind, hparent⟩
    rcases List.mem_append.mp (mem_of_parent? wf hparent) with h | h
    · rcases (wf.children n m h).2 with hother | hother <;> simp [hother] at hkind
    · exact h

/-- Nothing stands in an attribute or a text. -/
theorem not_leaf_of_parent? (h : d.parent? m = some n) :
    d.kind? n ≠ some .attribute ∧ d.kind? n ≠ some .text := by
  have hmem := mem_of_parent? wf h
  constructor
  · intro hkind
    obtain ⟨hchildren, hattributes⟩ := wf.leaves n (.inl hkind)
    simp [hchildren, hattributes] at hmem
  · intro hkind
    obtain ⟨hchildren, hattributes⟩ := wf.leaves n (.inr hkind)
    simp [hchildren, hattributes] at hmem

theorem Encloses.lt (h : Encloses d top n) : top < n := by
  induction h with
  | single hparent => exact lt_of_parent? wf hparent
  | tail _ hparent ih => exact Nat.lt_trans (lt_of_parent? wf hparent) ih

/-- Only the root and elements have anything inside. -/
theorem Encloses.not_leaf (h : Encloses d top n) :
    d.kind? top ≠ some .attribute ∧ d.kind? top ≠ some .text := by
  cases h with
  | single hparent => exact not_leaf_of_parent? wf hparent
  | tail _ hparent => exact not_leaf_of_parent? wf hparent

/-- The root stands around every other node. -/
theorem encloses_root (hn : Document.root < n) (hlt : n < d.size) : Encloses d Document.root n := by
  induction n using Nat.strongRecOn with
  | ind n ih =>
    obtain ⟨p, hp, hparent, -⟩ := wf.parent n hn hlt
    rcases Nat.eq_zero_or_pos p with rfl | hpos
    · exact .single hparent
    · exact .head hparent (ih p hp hpos (Nat.lt_trans hp hlt))

end Parents

section Descendants

variable {d : Document} {m n c e depth : Nat} (wf : d.WellFormed)
include wf

/-- What is found on the way down is inside. -/
theorem encloses_of_mem_below (h : m ∈ d.below depth n) :
    d.kind? m ≠ some .attribute ∧ Encloses d n m := by
  induction depth generalizing n with
  | zero => cases h
  | succ depth ih =>
    obtain ⟨c, hc, h⟩ := List.mem_flatMap.mp h
    obtain ⟨hkind, hparent⟩ := (mem_children_iff wf).mp hc
    rcases List.mem_cons.mp h with rfl | h
    · exact ⟨hkind, .single hparent⟩
    · obtain ⟨hm, hpath⟩ := ih h
      exact ⟨hm, hpath.tail hparent⟩

/-- Each parent on the way up is smaller, so the way is no longer than the numbers are apart. -/
theorem mem_below_of_encloses (hm : d.kind? m ≠ some .attribute) (h : Encloses d n m)
    (enough : m ≤ n + depth) : m ∈ d.below depth n := by
  induction depth generalizing n with
  | zero =>
    have := h.lt wf
    omega
  | succ depth ih =>
    rw [Document.below, List.mem_flatMap]
    cases h with
    | single hparent =>
      exact ⟨m, (mem_children_iff wf).mpr ⟨hm, hparent⟩, List.mem_cons_self⟩
    | @tail c _ path hparent =>
      have hpath : Encloses d c m := path
      have hlt : n < c := lt_of_parent? wf hparent
      refine ⟨c, (mem_children_iff wf).mpr ⟨(hpath.not_leaf wf).1, hparent⟩, ?_⟩
      exact List.mem_cons_of_mem c (ih hpath (by omega))

/-- The descendants are all that is inside but the attributes. -/
theorem mem_descendants_iff :
    m ∈ d.descendants n ↔ d.kind? m ≠ some .attribute ∧ Encloses d n m := by
  constructor
  · exact encloses_of_mem_below wf
  · rintro ⟨hm, h⟩
    have := h.lt_size
    exact mem_below_of_encloses wf hm h (by omega)

/-- All that a node encloses comes before the next sibling. -/
theorem lt_of_encloses_sibling (hc : c ∈ d.children n) (he : e ∈ d.children n) (hlt : c < e)
    (h : Encloses d c m) : m < e := by
  have hkind : d.kind? c = some .element := by
    rcases (wf.children n c hc).2 with hkind | hkind
    · exact hkind
    · exact absurd hkind (h.not_leaf wf).2
  obtain ⟨next, -, hnext⟩ := wf.interval c hkind
  have hm : m < next := ((hnext m).mp h.to_reflTransGen).2
  have hout : ¬ (c ≤ e ∧ e < next) := by
    intro hin
    -- The way up from `e` goes through the parent that it has in common with `c`.
    rcases Relation.ReflTransGen.cases_head ((hnext e).mpr hin) with rfl | ⟨p, hp, path⟩
    · exact Nat.lt_irrefl _ hlt
    · cases hp.symm.trans (wf.children n e he).1
      have hn := lt_of_mem_children wf hc
      rcases Relation.reflTransGen_iff_eq_or_transGen.mp path with rfl | path
      · exact Nat.lt_irrefl _ hn
      · exact Nat.lt_asymm hn (Encloses.lt wf path)
  omega

/-- On the way down, nodes are met in the order of the document. -/
theorem ascending_below (depth n : Nat) : (d.below depth n).Pairwise (· < ·) := by
  induction depth generalizing n with
  | zero => exact .nil
  | succ depth ih =>
    rw [Document.below, List.pairwise_flatMap]
    constructor
    · intro c _
      exact .cons (fun m hm => (encloses_of_mem_below wf hm).2.lt wf) (ih c)
    · refine (wf.ascending n).1.imp_of_mem fun {c e} hc he hlt m hm k hk => ?_
      have hmlt : m < e := by
        rcases List.mem_cons.mp hm with rfl | hm
        · exact hlt
        · exact lt_of_encloses_sibling wf hc he hlt (encloses_of_mem_below wf hm).2
      rcases List.mem_cons.mp hk with rfl | hk
      · exact hmlt
      · exact Nat.lt_trans hmlt ((encloses_of_mem_below wf hk).2.lt wf)

end Descendants

section Ancestors

variable {d : Document} {m n bound : Nat}

theorem encloses_of_mem_parentsAbove (h : m ∈ parentsAbove d bound n) : Encloses d m n := by
  induction bound generalizing n with
  | zero => cases h
  | succ bound ih =>
    rw [parentsAbove] at h
    split at h
    · cases h
    · rename_i p hp
      rcases List.mem_cons.mp h with rfl | h
      · exact .single hp
      · exact .head hp (ih h)

variable (wf : d.WellFormed)
include wf

/-- On the way up nothing is missed, if one goes far enough. -/
theorem mem_parentsAbove_of_encloses (h : Encloses d m n) (enough : n ≤ bound) :
    m ∈ parentsAbove d bound n := by
  induction bound generalizing n with
  | zero =>
    have := h.lt wf
    omega
  | succ bound ih =>
    obtain ⟨p, hp, path⟩ := Relation.TransGen.head'_iff.mp h
    have hlt : p < bound + 1 := Nat.lt_of_lt_of_le (lt_of_parent? wf hp) enough
    rw [parentsAbove, hp]
    rcases Relation.reflTransGen_iff_eq_or_transGen.mp path with rfl | path
    · exact List.mem_cons_self
    · exact List.mem_cons_of_mem p (ih path (Nat.le_of_lt_succ hlt))

theorem mem_ancestors_iff : m ∈ ancestors d n ↔ Encloses d m n := by
  constructor
  · exact encloses_of_mem_parentsAbove
  · intro h
    exact mem_parentsAbove_of_encloses wf h (Nat.le_of_lt h.lt_size)

theorem descending_parentsAbove (bound n : Nat) :
    (parentsAbove d bound n).Pairwise (fun m k => k < m) := by
  induction bound generalizing n with
  | zero => exact .nil
  | succ bound ih =>
    rw [parentsAbove]
    split
    · exact .nil
    · exact .cons (fun m hm => lt_of_mem_parentsAbove wf hm) (ih _)

end Ancestors

section Siblings

variable {d : Document} {m n : Nat} {ns : List Nat}

theorem exists_split (h : ns.Pairwise (· < ·)) (hn : n ∈ ns) : ∃ front back,
    ns = front ++ n :: back ∧ (∀ k ∈ front, k < n) ∧ ∀ k ∈ back, n < k := by
  obtain ⟨front, back, rfl⟩ := List.append_of_mem hn
  obtain ⟨-, hback, hlt⟩ := List.pairwise_append.mp h
  exact ⟨front, back, rfl, fun k hk => hlt k hk n List.mem_cons_self,
    fun k hk => List.rel_of_pairwise_cons hback hk⟩

/-- What follows a node in an ascending list is greater. -/
theorem mem_drop_dropWhile_iff (h : ns.Pairwise (· < ·)) (hn : n ∈ ns) :
    m ∈ (ns.dropWhile (· != n)).drop 1 ↔ m ∈ ns ∧ n < m := by
  obtain ⟨front, back, rfl, hfront, hback⟩ := exists_split h hn
  have hne : ∀ k ∈ front, (k != n) = true := fun k hk => bne_iff_ne.mpr (Nat.ne_of_lt (hfront k hk))
  rw [List.dropWhile_append_of_pos hne, List.dropWhile_cons_of_neg (by simp), List.drop_one,
    List.tail_cons, List.mem_append, List.mem_cons]
  constructor
  · intro hm
    exact ⟨.inr (.inr hm), hback m hm⟩
  · rintro ⟨hm | rfl | hm, hnm⟩
    · have := hfront m hm
      omega
    · omega
    · exact hm

theorem mem_takeWhile_iff (h : ns.Pairwise (· < ·)) (hn : n ∈ ns) :
    m ∈ ns.takeWhile (· != n) ↔ m ∈ ns ∧ m < n := by
  obtain ⟨front, back, rfl, hfront, hback⟩ := exists_split h hn
  have hne : ∀ k ∈ front, (k != n) = true := fun k hk => bne_iff_ne.mpr (Nat.ne_of_lt (hfront k hk))
  rw [List.takeWhile_append_of_pos hne, List.takeWhile_cons_of_neg (by simp), List.append_nil,
    List.mem_append, List.mem_cons]
  constructor
  · intro hm
    exact ⟨.inl hm, hfront m hm⟩
  · rintro ⟨hm | rfl | hm, hmn⟩
    · exact hm
    · omega
    · have := hback m hm
      omega

/-- A node has no siblings, not even itself, or they are listed in document order. -/
theorem siblings_cases (wf : d.WellFormed) (n : Nat) :
    (siblings d n = [] ∧ ∀ m, ¬ AreSiblings d n m) ∨
      n ∈ siblings d n ∧ (siblings d n).Pairwise (· < ·) ∧
        ∀ m, m ∈ siblings d n ↔ AreSiblings d n m := by
  by_cases hkind : d.kind? n = some .attribute
  · exact .inl ⟨by simp [siblings, hkind], fun m hm => hm.left hkind⟩
  · cases hp : d.parent? n with
    | none =>
      refine .inl ⟨by simp [siblings, hkind, hp], fun m hm => ?_⟩
      obtain ⟨p, hn, -⟩ := hm.parent
      simp [hp] at hn
    | some p =>
      have hn : n ∈ d.children p := (mem_children_iff wf).mpr ⟨hkind, hp⟩
      have hlist : siblings d n = d.children p := by simp [siblings, hkind, hp, hn]
      rw [hlist]
      refine .inr ⟨hn, (wf.ascending p).1, fun m => ?_⟩
      rw [mem_children_iff wf]
      constructor
      · rintro ⟨hm, hparent⟩
        exact ⟨⟨p, hp, hparent⟩, hkind, hm⟩
      · rintro ⟨⟨q, hq, hm⟩, -, hright⟩
        cases hp.symm.trans hq
        exact ⟨hright, hm⟩

end Siblings

section Nodes

variable {d : Document} (wf : d.WellFormed)
include wf

/-- An axis lists the nodes that it leads to, and no others. -/
theorem mem_nodes_iff (a : Axis) (n m : Nat) : m ∈ a.nodes d n ↔ a.Reaches d n m := by
  match a with
  | .child => exact mem_children_iff wf
  | .descendant => exact mem_descendants_iff wf
  | .descendantOrSelf => rw [Axis.nodes, List.mem_cons, mem_descendants_iff wf, Axis.Reaches]
  | .itself => exact List.mem_singleton
  | .parent => exact Option.mem_toList
  | .ancestor => exact mem_ancestors_iff wf
  | .ancestorOrSelf => rw [Axis.nodes, List.mem_cons, mem_ancestors_iff wf, Axis.Reaches]
  | .attribute => exact mem_attributes_iff wf
  | .followingSibling =>
    rw [Axis.nodes, Axis.Reaches]
    rcases siblings_cases wf n with ⟨hnil, hnone⟩ | ⟨hn, hascending, hmem⟩
    · simp [hnil, hnone]
    · rw [mem_drop_dropWhile_iff hascending hn, hmem]
  | .precedingSibling =>
    rw [Axis.nodes, Axis.Reaches, List.mem_reverse]
    rcases siblings_cases wf n with ⟨hnil, hnone⟩ | ⟨hn, hascending, hmem⟩
    · simp [hnil, hnone]
    · rw [mem_takeWhile_iff hascending hn, hmem]

theorem ascending_siblings (n : Nat) : (siblings d n).Pairwise (· < ·) := by
  rcases siblings_cases wf n with ⟨hnil, -⟩ | ⟨-, hascending, -⟩
  · rw [hnil]
    exact .nil
  · exact hascending

/-- An axis lists its nodes in its own direction. -/
theorem pairwise_nodes (a : Axis) (n : Nat) : (a.nodes d n).Pairwise a.Before := by
  match a with
  | .child => exact (wf.ascending n).1
  | .descendant => exact ascending_below wf _ n
  | .descendantOrSelf =>
    exact .cons (fun m hm => ((mem_descendants_iff wf).mp hm).2.lt wf) (ascending_below wf _ n)
  | .itself => exact List.pairwise_singleton _ n
  | .parent =>
    rw [Axis.nodes]
    cases d.parent? n with
    | none => exact .nil
    | some p => exact List.pairwise_singleton _ p
  | .ancestor => exact descending_parentsAbove wf _ n
  | .ancestorOrSelf =>
    exact .cons (fun m hm => lt_of_mem_parentsAbove wf hm) (descending_parentsAbove wf _ n)
  | .attribute => exact (wf.ascending n).2
  | .followingSibling =>
    exact ((ascending_siblings wf n).sublist (List.dropWhile_sublist _)).sublist
      (List.drop_sublist _ _)
  | .precedingSibling =>
    exact List.pairwise_reverse.mpr ((ascending_siblings wf n).sublist (List.takeWhile_sublist _))

end Nodes

/-- In a document that was read, the nodes of an axis are those that it reaches, each of them once, in
document order or, on a reverse axis, against it. For nodes that are no attributes, ancestors and
descendants are converse to each other, and so are the siblings that follow and those that precede. -/
theorem nodes_reached_in_order {text : String} {d : Document} (h : Document.parse text = .ok d) :
    (∀ (a : Axis) (n : NodeId), (a.nodes d n).Nodup ∧
      (a.nodes d n).Pairwise a.Before ∧ ∀ m, m ∈ a.nodes d n ↔ a.Reaches d n m) ∧
    (∀ n m : NodeId, d.kind? n ≠ some .attribute →
      (m ∈ Axis.nodes d n .ancestor ↔ n ∈ Axis.nodes d m .descendant)) ∧
    ∀ n m : NodeId,
      m ∈ Axis.nodes d n .followingSibling ↔ n ∈ Axis.nodes d m .precedingSibling := by
  have wf := Markup.wellFormed_of_parse h
  refine ⟨fun a n => ⟨?_, pairwise_nodes wf a n, mem_nodes_iff wf a n⟩, fun n m hn => ?_,
    fun n m => ?_⟩
  · refine (pairwise_nodes wf a n).imp fun {m k} hbefore => ?_
    unfold Axis.Before at hbefore
    split at hbefore
    · exact Nat.ne_of_gt hbefore
    · exact Nat.ne_of_lt hbefore
  · rw [mem_nodes_iff wf, mem_nodes_iff wf, Axis.Reaches, Axis.Reaches]
    exact (and_iff_right hn).symm
  · rw [mem_nodes_iff wf, mem_nodes_iff wf, Axis.Reaches, Axis.Reaches]
    exact and_congr_left' ⟨AreSiblings.symm, AreSiblings.symm⟩

/-- An element with an attribute, and a text between two elements. -/
theorem nodes_reached_in_order_nested :
    ∃ d, Document.parse "<a x='1'><b/>t<c><d/></c></a>" = .ok d ∧
      Axis.nodes d 6 .ancestor = [5, 1, 0] ∧ Encloses d 1 6 ∧
      Axis.nodes d 5 .precedingSibling = [4, 3] ∧ [4, 3].Pairwise (Axis.Before .precedingSibling) ∧
      3 ∈ Axis.nodes d 1 .descendant ∧ 2 ∉ Axis.nodes d 1 .descendant := by
  have h : Document.parse "<a x='1'><b/>t<c><d/></c></a>" = .ok (.ofContent [.element "a" [⟨"x", "1"⟩]
      [.element "b" [] [], .text "t", .element "c" [] [.element "d" [] []]]]) := by
    decide +kernel
  obtain ⟨hnodes, hconverse, -⟩ := nodes_reached_in_order h
  refine ⟨_, h, by decide +kernel, ((hnodes .ancestor 6).2.2 1).mp (by decide +kernel),
    by decide +kernel, ?_, (hconverse 3 1 (by decide +kernel)).mp (by decide +kernel), ?_⟩
  · exact (hnodes .precedingSibling 5).2.1
  · intro hmem
    exact (((hnodes .descendant 1).2.2 2).mp hmem).1 (by decide +kernel)

end ComputedField.Query
