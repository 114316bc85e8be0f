import ComputedField.Proofs.Query.Additive
import ComputedField.Proofs.Query.Named
import ComputedField.Proofs.Query.Place

/-!
# Two slashes

Two slashes lead to the nodes themselves and all nodes below, and the step behind them to the children
of those. Each node below is a child of just one of them, but it is judged there among its siblings, and
not among all nodes below. Predicates that judge alone do not tell the difference.
-/

namespace ComputedField.Query

open Markup (Document NodeId)

/-- Whether an axis leads from one of the nodes to one that passes the test. -/
def Axis.Offers (d : Document) (a : Axis) (test : NodeTest) (ns : List NodeId) (m : NodeId) : Prop :=
  ∃ n ∈ ns, m ∈ a.nodes d n ∧ test.holds d a m = true

section Offered

variable {d : Document} {a b : Axis} {test : NodeTest} {ps : List Expr} {ms ns all reached : List NodeId}

/-- Where predicates judge each node alone, a step keeps those of its nodes that pass all of them. -/
theorem select_eq_ok_iff (hps : ∀ p ∈ ps, p.JudgesAlone) {n : NodeId} {here : List NodeId} :
    (Step.mk a test ps).select d n = .ok here ↔
      (∀ m, m ∈ a.nodes d n ∧ test.holds d a m = true → (verdict? d ps m).isSome) ∧
        here = ((a.nodes d n).filter (test.holds d a)).filter fun m => verdict? d ps m = some true := by
  rw [Step.select, narrow_eq_ok_iff hps]
  simp only [List.mem_filter]

/-- A step fails only if a predicate fails for some node that is offered. -/
theorem exists_gather_select_iff (hps : ∀ p ∈ ps, p.JudgesAlone) :
    (∃ all, gather (Step.select d (.mk a test ps)) ns = .ok all) ↔
      ∀ m, a.Offers d test ns m → (verdict? d ps m).isSome := by
  simp only [exists_gather_iff, select_eq_ok_iff hps, exists_and_left, exists_eq, and_true]
  constructor
  · rintro h m ⟨n, hn, hm⟩
    exact h n hn m hm
  · intro h n hn m hm
    exact h m ⟨n, hn, hm⟩

/-- What steps lead to is what they offer and their predicates let pass. -/
theorem mem_gather_select_iff (hps : ∀ p ∈ ps, p.JudgesAlone)
    (h : gather (Step.select d (.mk a test ps)) ns = .ok all) {m : NodeId} :
    m ∈ all ↔ a.Offers d test ns m ∧ verdict? d ps m = some true := by
  rw [mem_gather_iff h]
  constructor
  · rintro ⟨n, hn, here, hhere, hm⟩
    obtain ⟨-, rfl⟩ := (select_eq_ok_iff hps).mp hhere
    simp only [List.mem_filter, decide_eq_true_eq] at hm
    exact ⟨⟨n, hn, hm.1⟩, hm.2⟩
  · rintro ⟨⟨n, hn, hm⟩, hverdict⟩
    have hsome := exists_gather_iff.mp ⟨all, h⟩ n hn
    obtain ⟨here, hhere⟩ := hsome
    refine ⟨n, hn, here, hhere, ?_⟩
    obtain ⟨-, rfl⟩ := (select_eq_ok_iff hps).mp hhere
    simp only [List.mem_filter, decide_eq_true_eq]
    exact ⟨hm, hverdict⟩

/-- Predicates that judge alone see which nodes are offered, and not from where. -/
theorem walk_of_offers (hps : ∀ p ∈ ps, p.JudgesAlone)
    (h : ∀ m, a.Offers d test ms m ↔ b.Offers d test ns m)
    (hreached : walk d [.mk a test ps] ms = .ok reached) :
    walk d [.mk b test ps] ns = .ok reached := by
  obtain ⟨all, hall, hreached⟩ := ok_of_bind hreached
  cases hreached
  have hasked : ∀ m, b.Offers d test ns m → (verdict? d ps m).isSome := fun m hm =>
    (exists_gather_select_iff hps).mp ⟨all, hall⟩ m ((h m).mpr hm)
  obtain ⟨others, hothers⟩ := (exists_gather_select_iff hps).mpr hasked
  refine bind_of_ok hothers (congrArg Except.ok (documentOrder_congr fun m => ?_))
  rw [mem_gather_select_iff hps hothers, mem_gather_select_iff hps hall, h]

end Offered

theorem holds_child_eq_holds_descendant (d : Document) (test : NodeTest) (m : NodeId) :
    test.holds d .child m = test.holds d .descendant m := by
  cases test <;> rfl

/-- What is below a node is a child of the node itself or of something below it. -/
theorem exists_child_iff {d : Document} (wf : d.WellFormed) {n m : NodeId} :
    (∃ k ∈ Axis.nodes d n .descendantOrSelf, m ∈ Axis.nodes d k .child) ↔
      m ∈ Axis.nodes d n .descendant := by
  simp only [mem_nodes_iff wf, Axis.Reaches]
  constructor
  · rintro ⟨k, hk, hkind, hparent⟩
    refine ⟨hkind, ?_⟩
    rcases hk with rfl | ⟨-, path⟩
    · exact .single hparent
    · exact .head hparent path
  · rintro ⟨hkind, path⟩
    -- The parent of `m` is the first node on the way up, and it may be `n` already.
    obtain ⟨k, hparent, path⟩ := Relation.TransGen.head'_iff.mp path
    refine ⟨k, ?_, hkind, hparent⟩
    rcases Relation.reflTransGen_iff_eq_or_transGen.mp path with rfl | path
    · exact .inl rfl
    · exact .inr ⟨(not_leaf_of_parent? wf hparent).1, path⟩

/-- The nodes that two slashes lead to offer as children what the nodes before offer below them. -/
theorem offers_child_iff {d : Document} (wf : d.WellFormed) (test : NodeTest) (ns : List NodeId)
    (m : NodeId) :
    Axis.Offers d .child test (documentOrder (ns.flatMap fun n =>
        (Axis.nodes d n .descendantOrSelf).filter (NodeTest.node.holds d .descendantOrSelf))) m ↔
      Axis.Offers d .descendant test ns m := by
  have hnode : ∀ k, NodeTest.node.holds d .descendantOrSelf k = true := fun _ => rfl
  simp only [Axis.Offers, mem_documentOrder, List.mem_flatMap, List.mem_filter, hnode, and_true,
    holds_child_eq_holds_descendant, ← exists_child_iff wf]
  constructor
  · rintro ⟨k, ⟨n, hn, hk⟩, hm, htest⟩
    exact ⟨n, hn, ⟨k, hk, hm⟩, htest⟩
  · rintro ⟨n, hn, ⟨k, hk, hm⟩, htest⟩
    exact ⟨k, ⟨n, hn, hk⟩, hm, htest⟩

/-- Two slashes before a step to children lead where a step to all descendants leads, and fail where it
fails, from whichever nodes, if the predicates of the step judge alone. -/
theorem walk_anywhereBelow_child {d : Document}
    (hd : d = .empty ∨ ∃ text, Document.parse text = .ok d) (test : NodeTest) {ps : List Expr}
    (hps : ∀ p ∈ ps, p.JudgesAlone) (ns reached : List NodeId) :
    walk d [.anywhereBelow, .mk .child test ps] ns = .ok reached ↔
      walk d [.mk .descendant test ps] ns = .ok reached := by
  have hoffers := offers_child_iff (wellFormed_of_empty_or_parse hd) test ns
  rw [Step.anywhereBelow, walk_cons_plain]
  constructor
  · exact walk_of_offers hps hoffers
  · exact walk_of_offers hps fun m => (hoffers m).symm

/-- Elements that stand one in the other, asked for an attribute and for a second element in them; the
nodes to start from are in disorder. -/
theorem walk_anywhereBelow_child_nested :
    ∃ (d : Document) (p q : Expr),
      Document.parse "<r><a x='1'><b/><a x='2'><b/><b/></a><b/></a><a><b/><b/></a></r>" = .ok d ∧
      p.JudgesAlone ∧ q.JudgesAlone ∧
      walk d [.mk .descendant (.name "a") [p, q]] [2, 0, 2] = .ok [2, 5] ∧
      walk d [.anywhereBelow, .mk .child (.name "a") [p, q]] [2, 0, 2] = .ok [2, 5] := by
  let d : Document := .ofContent [.element "r" []
    [.element "a" [⟨"x", "1"⟩] [.element "b" [] [],
      .element "a" [⟨"x", "2"⟩] [.element "b" [] [], .element "b" [] []], .element "b" [] []],
    .element "a" [] [.element "b" [] [], .element "b" [] []]]]
  have hd : Document.parse "<r><a x='1'><b/><a x='2'><b/><b/></a><b/></a><a><b/><b/></a></r>" =
      .ok d := by
    decide +kernel
  let p : Expr := .path false [.mk .attribute (.name "x") []]
  let q : Expr := .path false [.mk .child (.name "b") [.number 2.0]]
  have hp : p.JudgesAlone := ⟨trivial, nofun⟩
  have hq : q.JudgesAlone := ⟨trivial, nofun⟩
  have hgather : gather ((Step.mk .descendant (.name "a") [p, q]).select d) [2, 0, 2] =
      .ok [5, 2, 5, 5] := by
    decide +kernel
  have horder : documentOrder [5, 2, 5, 5] = [2, 5] := by cbv
  have hwalk : walk d [.mk .descendant (.name "a") [p, q]] [2, 0, 2] = .ok [2, 5] :=
    bind_of_ok hgather (congrArg Except.ok horder)
  have hpair : ∀ r ∈ [p, q], r.JudgesAlone := by simpa using ⟨hp, hq⟩
  exact ⟨d, p, q, hd, hp, hq, hwalk,
    (walk_anywhereBelow_child (.inr ⟨_, hd⟩) (.name "a") hpair _ _).mpr hwalk⟩

end ComputedField.Query
