import Mathlib.Data.Finset.Sort
import Mathlib.Data.List.Permutation
import ComputedField.Proofs.Fallible
import ComputedField.Proofs.Markup.Layout
import ComputedField.Query.Eval

/-!
# Document order

Axes go through a document in orders of their own, and several nodes may lead to the same one. What an
expression selects is in document order all the same, each node of it once: a step ends with document
order, predicates only drop nodes, and nothing else selects any. A union is thus the union of two sets,
listed in order.
-/

namespace ComputedField.Query

open Markup (Document NodeId NodeKind)

section Order

variable {ns : List NodeId}

theorem ascending_dropRepeats (h : ns.Pairwise (· ≤ ·)) : (dropRepeats ns).Pairwise (· < ·) := by
  fun_induction dropRepeats ns with
  | case1 => exact .nil
  | case2 n => exact List.pairwise_singleton _ n
  | case3 n rest ih => exact ih h.of_cons
  | case4 m n rest hmn ih =>
    obtain ⟨hm, hrest⟩ := List.pairwise_cons.mp h
    refine .cons (fun k hk => ?_) (ih hrest)
    have hn : m < n := Nat.lt_of_le_of_ne (hm n List.mem_cons_self) hmn
    rcases List.mem_cons.mp (mem_dropRepeats.mp hk) with rfl | hk
    · exact hn
    · exact Nat.lt_of_lt_of_le hn (List.rel_of_pairwise_cons hrest hk)

theorem ascending_documentOrder (ns : List NodeId) : (documentOrder ns).Pairwise (· < ·) := by
  refine ascending_dropRepeats ?_
  exact List.pairwise_mergeSort' (· ≤ ·) ns

theorem sort_toFinset_of_ascending (h : ns.Pairwise (· < ·)) : ns.toFinset.sort = ns :=
  (List.toFinset_sort _ (h.imp Nat.ne_of_lt)).mpr (h.imp Nat.le_of_lt)

theorem eq_of_ascending {ms : List NodeId} (hms : ms.Pairwise (· < ·)) (hns : ns.Pairwise (· < ·))
    (h : ∀ k, k ∈ ms ↔ k ∈ ns) : ms = ns := by
  have hset : ms.toFinset = ns.toFinset := by
    ext k
    simp only [List.mem_toFinset, h]
  rw [← sort_toFinset_of_ascending hms, hset, sort_toFinset_of_ascending hns]

/-- Document order lists the set of the given nodes. -/
theorem documentOrder_eq_sort (ns : List NodeId) : documentOrder ns = ns.toFinset.sort := by
  have hset : (documentOrder ns).toFinset = ns.toFinset := by
    ext n
    simp only [List.mem_toFinset, mem_documentOrder]
  rw [← hset, sort_toFinset_of_ascending (ascending_documentOrder ns)]

end Order

section Kept

variable {judge : Context → Except Error Value} {ns kept : List NodeId}

theorem sublist_of_keepFrom {size position : Nat} (h : keepFrom judge size position ns = .ok kept) :
    kept.Sublist ns := by
  induction ns generalizing position kept with
  | nil =>
    cases h
    exact .slnil
  | cons n rest ih =>
    obtain ⟨v, -, h⟩ := ok_of_bind h
    obtain ⟨others, hothers, h⟩ := ok_of_bind h
    cases h
    split
    · exact (ih hothers).cons_cons n
    · exact (ih hothers).cons n

/-- Predicates drop nodes and change nothing else. -/
theorem sublist_of_narrow {d : Document} {ps : List Expr} (h : narrow d ps ns = .ok kept) :
    kept.Sublist ns := by
  induction ps generalizing ns with
  | nil =>
    cases h
    exact .refl _
  | cons p rest ih =>
    obtain ⟨some, hsome, h⟩ := ok_of_bind h
    exact (ih h).trans (sublist_of_keepFrom hsome)

/-- Where every node leads somewhere, what they lead to is put together. -/
theorem gather_of_ok {select : NodeId → Except Error (List NodeId)} {f : NodeId → List NodeId}
    (h : ∀ n ∈ ns, select n = .ok (f n)) :
    gather select ns = .ok (ns.flatMap f) := by
  induction ns with
  | nil => rfl
  | cons n rest ih =>
    have hrest := ih fun m hm => h m (List.mem_cons_of_mem n hm)
    exact bind_of_ok (h n List.mem_cons_self) (bind_of_ok hrest rfl)

/-- What is gathered comes from one of the nodes. -/
theorem mem_of_gather {select : NodeId → Except Error (List NodeId)} {all : List NodeId}
    (h : gather select ns = .ok all) {m : NodeId} (hm : m ∈ all) :
    ∃ n ∈ ns, ∃ here, select n = .ok here ∧ m ∈ here := by
  induction ns generalizing all with
  | nil =>
    cases h
    cases hm
  | cons n rest ih =>
    obtain ⟨here, hhere, h⟩ := ok_of_bind h
    obtain ⟨there, hthere, h⟩ := ok_of_bind h
    cases h
    rcases List.mem_append.mp hm with hm | hm
    · exact ⟨n, List.mem_cons_self, here, hhere, hm⟩
    · obtain ⟨k, hk, hselect⟩ := ih hthere hm
      exact ⟨k, List.mem_cons_of_mem n hk, hselect⟩

end Kept

section Inside

variable {d : Document} {m n p : NodeId}

theorem lt_size_of_parent? (h : d.parent? n = some p) : n < d.size := by
  obtain ⟨node, hnode, -⟩ := Option.bind_eq_some_iff.mp h
  exact (Array.getElem?_eq_some_iff.mp hnode).1

theorem lt_size_of_kind? {kind : NodeKind} (h : d.kind? n = some kind) : n < d.size := by
  obtain ⟨node, hnode, -⟩ := Option.map_eq_some_iff.mp h
  exact (Array.getElem?_eq_some_iff.mp hnode).1

variable (wf : d.WellFormed)
include wf

/-- Parents come before their children and attributes. -/
theorem lt_of_parent? (h : d.parent? n = some p) : p < n := by
  have hn : n ≠ Document.root := by
    rintro rfl
    rw [wf.root.2] at h
    cases h
  obtain ⟨q, hq, hparent, -⟩ := wf.parent n (Nat.pos_of_ne_zero hn) (lt_size_of_parent? h)
  cases hparent.symm.trans h
  exact hq

theorem lt_of_mem_children (h : m ∈ d.children n) : n < m :=
  lt_of_parent? wf (wf.children n m h).1

theorem lt_size_of_mem_children (h : m ∈ d.children n) : m < d.size :=
  lt_size_of_parent? (wf.children n m h).1

/-- The way down does not leave the document. -/
theorem lt_size_of_mem_below {depth : Nat} (h : m ∈ d.below depth n) : m < d.size := by
  induction depth generalizing n with
  | zero => cases h
  | succ depth ih =>
    obtain ⟨c, hc, h⟩ := List.mem_flatMap.mp h
    rcases List.mem_cons.mp h with rfl | h
    · exact lt_size_of_mem_children wf hc
    · exact ih h

theorem lt_of_mem_parentsAbove {bound : Nat} (h : m ∈ parentsAbove d bound n) : m < n := by
  induction bound generalizing n with
  | zero => cases h
  | succ bound ih =>
    rw [parentsAbove] at h
    split at h
    · cases h
    · rename_i p hp
      have hlt := lt_of_parent? wf hp
      rcases List.mem_cons.mp h with rfl | h
      · exact hlt
      · exact Nat.lt_trans (ih h) hlt

theorem lt_size_of_mem_siblings (h : m ∈ siblings d n) : m < d.size := by
  unfold siblings at h
  split at h
  · cases h
  · split at h
    · cases h
    · split at h
      · exact lt_size_of_mem_children wf h
      · cases h

/-- No axis leads out of a document. -/
theorem lt_size_of_mem_nodes {a : Axis} (hn : n < d.size) (h : m ∈ a.nodes d n) : m < d.size := by
  match a with
  | .child => exact lt_size_of_mem_children wf h
  | .descendant => exact lt_size_of_mem_below wf h
  | .descendantOrSelf =>
    rcases List.mem_cons.mp h with rfl | h
    · exact hn
    · exact lt_size_of_mem_below wf h
  | .itself =>
    obtain rfl := List.mem_singleton.mp h
    exact hn
  | .parent => exact Nat.lt_trans (lt_of_parent? wf (Option.mem_toList.mp h)) hn
  | .ancestor => exact Nat.lt_trans (lt_of_mem_parentsAbove wf h) hn
  | .ancestorOrSelf =>
    rcases List.mem_cons.mp h with rfl | h
    · exact hn
    · exact Nat.lt_trans (lt_of_mem_parentsAbove wf h) hn
  | .attribute => exact lt_size_of_parent? (wf.attributes n m h).1
  | .followingSibling =>
    exact lt_size_of_mem_siblings wf ((List.dropWhile_sublist _).mem (List.mem_of_mem_drop h))
  | .precedingSibling =>
    exact lt_size_of_mem_siblings wf ((List.takeWhile_sublist _).mem (List.mem_reverse.mp h))

end Inside

/-- The nodes exist and are in document order, each of them once. -/
structure Ordered (d : Document) (ns : List NodeId) : Prop where
  ascending : ns.Pairwise (· < ·)
  inside : ∀ n ∈ ns, n < d.size

section Ordered

variable {d : Document} {ms ns kept : List NodeId}

theorem ordered_singleton {n : NodeId} (hn : n < d.size) : Ordered d [n] where
  ascending := List.pairwise_singleton _ n
  inside m hm := by rwa [List.mem_singleton.mp hm]

theorem Ordered.of_sublist (h : Ordered d ns) (hkept : kept.Sublist ns) : Ordered d kept where
  ascending := h.ascending.sublist hkept
  inside n hn := h.inside n (hkept.mem hn)

theorem ordered_documentOrder (h : ∀ n ∈ ns, n < d.size) : Ordered d (documentOrder ns) where
  ascending := ascending_documentOrder ns
  inside n hn := h n (mem_documentOrder.mp hn)

theorem Ordered.union (hms : Ordered d ms) (hns : Ordered d ns) :
    Ordered d (documentOrder (ms ++ ns)) := by
  refine ordered_documentOrder fun n hn => ?_
  rcases List.mem_append.mp hn with hn | hn
  · exact hms.inside n hn
  · exact hns.inside n hn

variable (wf : d.WellFormed)
include wf

theorem lt_size_of_select {s : Step} {n m : NodeId} (hn : n < d.size) (h : s.select d n = .ok kept)
    (hm : m ∈ kept) : m < d.size := by
  cases s with
  | mk axis test predicates =>
    have hmem : m ∈ (axis.nodes d n).filter (test.holds d axis) := (sublist_of_narrow h).mem hm
    exact lt_size_of_mem_nodes wf hn (List.mem_of_mem_filter hmem)

/-- Steps lead to nodes in order. -/
theorem Ordered.walk {ss : List Step} {reached : List NodeId} (hns : Ordered d ns)
    (h : walk d ss ns = .ok reached) : Ordered d reached := by
  induction ss generalizing ns with
  | nil =>
    cases h
    exact hns
  | cons s rest ih =>
    obtain ⟨all, hall, h⟩ := ok_of_bind h
    refine ih (ordered_documentOrder fun m hm => ?_) h
    obtain ⟨n, hn, here, hselect, hm⟩ := mem_of_gather hall hm
    exact lt_size_of_select wf (hns.inside n hn) hselect hm

end Ordered

/-- No function selects nodes. -/
theorem exists_atom_of_call {d : Document} {c : Context} {f : Function} {vs : List Value} {v : Value}
    (h : c.call d f vs = .ok v) : ∃ a, v = .atom a := by
  unfold Context.call at h
  split at h
  -- A branch ends in an atom at once, or behind an argument that has to select nodes, or it refuses.
  all_goals first
    | exact ⟨_, (Except.ok.inj h).symm⟩
    | exact (ok_of_bind h).elim fun _ h => ⟨_, (Except.ok.inj h.2).symm⟩
    | cases h

theorem asNodes_eq_ok {v : Value} {place : NodesPlace} {ns : List NodeId}
    (h : v.asNodes place = .ok ns) : v = .nodes ns := by
  cases v with
  | nodes ms =>
    cases h
    rfl
  | atom a => cases h

/-- Whatever selects nodes selects them in order. -/
theorem ordered_eval {d : Document} (wf : d.WellFormed) {c : Context} (hc : c.node < d.size)
    {e : Expr} {ns : List NodeId} (h : e.eval d c = .ok (.nodes ns)) : Ordered d ns := by
  match e with
  | .binary .or left right =>
    obtain ⟨v, -, h⟩ := ok_of_bind h
    split at h
    · cases h
    · obtain ⟨w, -, h⟩ := ok_of_bind h
      cases h
  | .binary .and left right =>
    obtain ⟨v, -, h⟩ := ok_of_bind h
    split at h
    · obtain ⟨w, -, h⟩ := ok_of_bind h
      cases h
    · cases h
  | .binary (.compare op) left right =>
    obtain ⟨v, -, h⟩ := ok_of_bind h
    obtain ⟨w, -, h⟩ := ok_of_bind h
    cases h
  | .binary (.arith op) left right =>
    obtain ⟨v, -, h⟩ := ok_of_bind h
    obtain ⟨w, -, h⟩ := ok_of_bind h
    cases h
  | .binary .union left right =>
    obtain ⟨v, hv, h⟩ := ok_of_bind h
    obtain ⟨ms, hms, h⟩ := ok_of_bind h
    obtain ⟨w, hw, h⟩ := ok_of_bind h
    obtain ⟨ks, hks, h⟩ := ok_of_bind h
    cases h
    obtain rfl := asNodes_eq_ok hms
    obtain rfl := asNodes_eq_ok hks
    exact (ordered_eval wf hc hv).union (ordered_eval wf hc hw)
  | .negate e =>
    obtain ⟨v, -, h⟩ := ok_of_bind h
    cases h
  | .path absolute steps =>
    obtain ⟨reached, hreached, h⟩ := ok_of_map h
    cases h
    refine (ordered_singleton ?_).walk wf hreached
    split
    · exact lt_size_of_kind? wf.root.1
    · exact hc
  | .filter primary predicates steps =>
    obtain ⟨v, hv, h⟩ := ok_of_bind h
    obtain ⟨ms, hms, h⟩ := ok_of_bind h
    obtain ⟨kept, hkept, h⟩ := ok_of_bind h
    obtain ⟨reached, hreached, h⟩ := ok_of_bind h
    cases h
    obtain rfl := asNodes_eq_ok hms
    exact ((ordered_eval wf hc hv).of_sublist (sublist_of_narrow hkept)).walk wf hreached
  | .literal s => cases h
  | .number x => cases h
  | .call f arguments =>
    obtain ⟨vs, -, h⟩ := ok_of_bind h
    obtain ⟨a, ha⟩ := exists_atom_of_call h
    cases ha

section Union

variable {d : Document} {c : Context} {e f g : Expr} {ms ns ks : List NodeId}

/-- A union lists the set of what its sides select. -/
theorem eval_union (he : e.eval d c = .ok (.nodes ms)) (hf : f.eval d c = .ok (.nodes ns)) :
    (Expr.binary .union e f).eval d c = .ok (.nodes (ms.toFinset ∪ ns.toFinset).sort) := by
  rw [← List.toFinset_append, ← documentOrder_eq_sort, Expr.eval, he, hf]
  rfl

theorem eval_union_comm (he : e.eval d c = .ok (.nodes ms)) (hf : f.eval d c = .ok (.nodes ns)) :
    (Expr.binary .union e f).eval d c = (Expr.binary .union f e).eval d c := by
  rw [eval_union he hf, eval_union hf he, Finset.union_comm]

theorem eval_union_assoc (he : e.eval d c = .ok (.nodes ms)) (hf : f.eval d c = .ok (.nodes ns))
    (hg : g.eval d c = .ok (.nodes ks)) :
    (Expr.binary .union (.binary .union e f) g).eval d c =
      (Expr.binary .union e (.binary .union f g)).eval d c := by
  rw [eval_union (eval_union he hf) hg, eval_union he (eval_union hf hg), Finset.sort_toFinset,
    Finset.sort_toFinset, Finset.union_assoc]

theorem eval_union_self (he : e.eval d c = .ok (.nodes ms)) (hms : ms.Pairwise (· < ·)) :
    (Expr.binary .union e e).eval d c = e.eval d c := by
  rw [eval_union he he, Finset.union_self, sort_toFinset_of_ascending hms, he]

end Union

/-- All documents that queries are asked of are well formed. -/
theorem wellFormed_of_empty_or_parse {d : Document}
    (hd : d = .empty ∨ ∃ text, Document.parse text = .ok d) : d.WellFormed := by
  rcases hd with rfl | ⟨text, h⟩
  · exact @Markup.wellFormed_ofContent [] trivial (.inl rfl)
  · obtain ⟨content, hread, rfl⟩ := ok_of_map h
    obtain ⟨tidy, single⟩ := Markup.tidy_of_readContent hread
    exact Markup.wellFormed_ofContent tidy single

/-- What an expression selects from a document is in document order, each node once, and `|` is the
union of the sets that its sides select. -/
theorem ascending_and_union_of_eval {d : Document}
    (hd : d = .empty ∨ ∃ text, Document.parse text = .ok d) {c : Context} (hc : c.node < d.size) :
    (∀ (e : Expr) (ns : List NodeId), e.eval d c = .ok (.nodes ns) →
      ns.Pairwise (· < ·) ∧ ∀ n ∈ ns, n < d.size) ∧
    ∀ (e f : Expr) (ms ns : List NodeId),
      e.eval d c = .ok (.nodes ms) → f.eval d c = .ok (.nodes ns) →
        (Expr.binary .union e f).eval d c = .ok (.nodes (ms.toFinset ∪ ns.toFinset).sort) ∧
        (Expr.binary .union e f).eval d c = (Expr.binary .union f e).eval d c ∧
        (Expr.binary .union e e).eval d c = e.eval d c ∧
        ∀ (g : Expr) (ks : List NodeId), g.eval d c = .ok (.nodes ks) →
          (Expr.binary .union (.binary .union e f) g).eval d c =
            (Expr.binary .union e (.binary .union f g)).eval d c := by
  have wf := wellFormed_of_empty_or_parse hd
  refine ⟨fun e ns he => ?_, fun e f ms ns he hf => ?_⟩
  · have h := ordered_eval wf hc he
    exact ⟨h.ascending, h.inside⟩
  · exact ⟨eval_union he hf, eval_union_comm he hf,
      eval_union_self he (ordered_eval wf hc he).ascending, fun g ks hg => eval_union_assoc he hf hg⟩

/-- An axis that goes outwards, in a document that was read. -/
theorem ascending_and_union_ancestors :
    ∃ (d : Document) (e : Expr), Document.parse "<r><a/></r>" = .ok d ∧
      Expr.parse "r/a/ancestor::node()" = .ok e ∧ Context.ofRoot.node < d.size ∧
      e.eval d .ofRoot = .ok (.nodes [0, 1]) ∧ [0, 1].Pairwise (· < ·) ∧
      (Expr.binary .union e e).eval d .ofRoot = e.eval d .ofRoot := by
  have heval : (Expr.path false [.mk .child (.name "r") [], .mk .child (.name "a") [],
      .mk .ancestor .node []]).eval (.ofContent [.element "r" [] [.element "a" [] []]]) .ofRoot =
      .ok (.nodes [0, 1]) := by
    cbv
  have hd : Document.parse "<r><a/></r>" =
      .ok (.ofContent [.element "r" [] [.element "a" [] []]]) := by
    decide +kernel
  have hscan : tokensAfter none "r/a/ancestor::node()".toList =
      .ok [.name "r", .slash, .name "a", .slash, .name "ancestor", .doubleColon, .name "node",
        .openParen, .closeParen] := by
    cbv
  have hparse : Expr.parse "r/a/ancestor::node()" =
      .ok (.path false [.mk .child (.name "r") [], .mk .child (.name "a") [],
        .mk .ancestor .node []]) := by
    rw [Expr.parse, tokenize, hscan]
    cbv
  have hsize : Context.ofRoot.node <
      (Document.ofContent [.element "r" [] [.element "a" [] []]]).size := by
    decide +kernel
  obtain ⟨hordered, hunion⟩ := ascending_and_union_of_eval (.inr ⟨_, hd⟩) hsize
  exact ⟨_, _, hd, hparse, hsize, heval, (hordered _ _ heval).1, (hunion _ _ _ _ heval heval).2.2.1⟩

end ComputedField.Query
