import ComputedField.Proofs.Query.Order

/-!
# Steps from several nodes

A step goes out from each node by itself, and its predicates count among what it finds from there. So
it does not matter to a path in which order the nodes come that it starts from, whether one of them
comes twice, or which others come along: steps from the nodes of two lists lead to what they lead to
from either list.
-/

namespace ComputedField.Query

open Markup (Document NodeId)

section Gathered

variable {select : NodeId → Except Error (List NodeId)} {ks ms ns all : List NodeId}

theorem documentOrder_congr (h : ∀ n, n ∈ ms ↔ n ∈ ns) : documentOrder ms = documentOrder ns := by
  refine eq_of_ascending (ascending_documentOrder ms) (ascending_documentOrder ns) fun n => ?_
  rw [mem_documentOrder, mem_documentOrder, h]

/-- Gathering succeeds exactly if every selection does. -/
theorem exists_gather_iff :
    (∃ all, gather select ns = .ok all) ↔ ∀ n ∈ ns, ∃ here, select n = .ok here := by
  induction ns with
  | nil => simp [gather]
  | cons n rest ih =>
    rw [List.forall_mem_cons, ← ih]
    constructor
    · rintro ⟨all, h⟩
      obtain ⟨here, hhere, h⟩ := ok_of_bind h
      obtain ⟨there, hthere, -⟩ := ok_of_bind h
      exact ⟨⟨here, hhere⟩, there, hthere⟩
    · rintro ⟨⟨here, hhere⟩, there, hthere⟩
      exact ⟨here ++ there, bind_of_ok hhere (bind_of_ok hthere rfl)⟩

/-- What is gathered is what some node leads to. -/
theorem mem_gather_iff (h : gather select ns = .ok all) {m : NodeId} :
    m ∈ all ↔ ∃ n ∈ ns, ∃ here, select n = .ok here ∧ m ∈ here := by
  refine ⟨mem_of_gather h, ?_⟩
  rintro ⟨n, hn, here, hhere, hm⟩
  induction ns generalizing all with
  | nil => cases hn
  | cons k rest ih =>
    obtain ⟨first, hfirst, h⟩ := ok_of_bind h
    obtain ⟨others, hothers, h⟩ := ok_of_bind h
    cases h
    rcases List.mem_cons.mp hn with rfl | hn
    · cases hhere.symm.trans hfirst
      exact List.mem_append_left others hm
    · exact List.mem_append_right first (ih hothers hn)

/-- What is gathered from the nodes of two lists is what is gathered from each. -/
theorem exists_gather_of_union (h : ∀ n, n ∈ ks ↔ n ∈ ms ∨ n ∈ ns) :
    (∃ all, gather select ks = .ok all) ↔
      (∃ here, gather select ms = .ok here) ∧ ∃ there, gather select ns = .ok there := by
  simp only [exists_gather_iff, h, or_imp, forall_and]

theorem mem_gather_of_union (h : ∀ n, n ∈ ks ↔ n ∈ ms ∨ n ∈ ns) {here there : List NodeId}
    (hall : gather select ks = .ok all) (hhere : gather select ms = .ok here)
    (hthere : gather select ns = .ok there) (m : NodeId) : m ∈ all ↔ m ∈ here ∨ m ∈ there := by
  simp only [mem_gather_iff hall, mem_gather_iff hhere, mem_gather_iff hthere, h, or_and_right,
    exists_or]

end Gathered

section Walked

variable {d : Document} {ks ms ns : List NodeId}

/-- Whether steps lead from the first nodes to what they lead to from the second and the third. -/
def IsAdditive (d : Document) (ss : List Step) (ks ms ns : List NodeId) : Prop :=
  ∀ reached, walk d ss ks = .ok reached ↔
    ∃ here there, walk d ss ms = .ok here ∧ walk d ss ns = .ok there ∧
      reached = documentOrder (here ++ there)

/-- No steps lead from the nodes to themselves. -/
theorem isAdditive_nil (hks : ks.Pairwise (· < ·)) (h : ∀ n, n ∈ ks ↔ n ∈ ms ∨ n ∈ ns) :
    IsAdditive d [] ks ms ns := by
  have hunion : documentOrder (ms ++ ns) = ks := by
    refine eq_of_ascending (ascending_documentOrder _) hks fun n => ?_
    rw [mem_documentOrder, List.mem_append, h]
  intro reached
  constructor
  · intro hreached
    cases hreached
    exact ⟨ms, ns, rfl, rfl, hunion.symm⟩
  · rintro ⟨here, there, hhere, hthere, rfl⟩
    cases hhere
    cases hthere
    exact congrArg Except.ok hunion.symm

/-- A step goes out from the same nodes in both cases, only in other company, and what it reaches is
put in order before the next one. -/
theorem isAdditive_cons {s : Step} {ss : List Step}
    (hss : ∀ {ks ms ns : List NodeId}, ks.Pairwise (· < ·) →
      (∀ n, n ∈ ks ↔ n ∈ ms ∨ n ∈ ns) → IsAdditive d ss ks ms ns)
    (h : ∀ n, n ∈ ks ↔ n ∈ ms ∨ n ∈ ns) : IsAdditive d (s :: ss) ks ms ns := by
  have hgather : (∃ all, gather (s.select d) ks = .ok all) ↔
      (∃ here, gather (s.select d) ms = .ok here) ∧ ∃ there, gather (s.select d) ns = .ok there :=
    exists_gather_of_union h
  have hrest : ∀ {all here there}, gather (s.select d) ks = .ok all →
      gather (s.select d) ms = .ok here → gather (s.select d) ns = .ok there →
      IsAdditive d ss (documentOrder all) (documentOrder here) (documentOrder there) := by
    intro all here there hall hhere hthere
    refine hss (ascending_documentOrder all) fun n => ?_
    rw [mem_documentOrder, mem_documentOrder, mem_documentOrder,
      mem_gather_of_union h hall hhere hthere]
  intro reached
  constructor
  · intro hreached
    obtain ⟨all, hall, hreached⟩ := ok_of_bind hreached
    obtain ⟨⟨here, hhere⟩, there, hthere⟩ := hgather.mp ⟨all, hall⟩
    obtain ⟨ms', ns', hms, hns, hunion⟩ := (hrest hall hhere hthere reached).mp hreached
    exact ⟨ms', ns', bind_of_ok hhere hms, bind_of_ok hthere hns, hunion⟩
  · rintro ⟨ms', ns', hms, hns, hunion⟩
    obtain ⟨here, hhere, hms⟩ := ok_of_bind hms
    obtain ⟨there, hthere, hns⟩ := ok_of_bind hns
    obtain ⟨all, hall⟩ := hgather.mpr ⟨⟨here, hhere⟩, there, hthere⟩
    exact bind_of_ok hall ((hrest hall hhere hthere reached).mpr ⟨ms', ns', hms, hns, hunion⟩)

theorem isAdditive_of_ascending (ss : List Step) (hks : ks.Pairwise (· < ·))
    (h : ∀ n, n ∈ ks ↔ n ∈ ms ∨ n ∈ ns) : IsAdditive d ss ks ms ns := by
  induction ss generalizing ks ms ns with
  | nil => exact isAdditive_nil hks h
  | cons s rest ih => exact isAdditive_cons ih h

/-- Behind the first step it no longer shows in which order the nodes came, or how often. -/
theorem isAdditive_append (s : Step) (ss : List Step) (ms ns : List NodeId) :
    IsAdditive d (s :: ss) (ms ++ ns) ms ns :=
  isAdditive_cons (isAdditive_of_ascending ss) fun _ => List.mem_append

theorem isAdditive_union (s : Step) (ss : List Step) (ms ns : List NodeId) :
    IsAdditive d (s :: ss) (documentOrder (ms ++ ns)) ms ns :=
  isAdditive_cons (isAdditive_of_ascending ss) fun _ => mem_documentOrder.trans List.mem_append

end Walked

section Followed

variable {d : Document} {c : Context} {e f : Expr} {ss : List Step} {v : Value}

/-- Steps behind an expression start from its nodes. -/
theorem eval_filter_eq_ok_iff : (Expr.filter e [] ss).eval d c = .ok v ↔
    ∃ ns reached, e.eval d c = .ok (.nodes ns) ∧ walk d ss ns = .ok reached ∧ v = .nodes reached := by
  constructor
  · intro h
    obtain ⟨w, hw, h⟩ := ok_of_bind h
    obtain ⟨ns, hns, h⟩ := ok_of_bind h
    obtain ⟨kept, hkept, h⟩ := ok_of_bind h
    obtain ⟨reached, hreached, h⟩ := ok_of_bind h
    cases h
    cases hkept
    obtain rfl := asNodes_eq_ok hns
    exact ⟨ns, reached, hw, hreached, rfl⟩
  · rintro ⟨ns, reached, hns, hreached, rfl⟩
    exact bind_of_ok hns (bind_of_ok rfl (bind_of_ok rfl (bind_of_ok hreached rfl)))

theorem eval_union_eq_ok_iff : (Expr.binary .union e f).eval d c = .ok v ↔
    ∃ ms ns, e.eval d c = .ok (.nodes ms) ∧ f.eval d c = .ok (.nodes ns) ∧
      v = .nodes (documentOrder (ms ++ ns)) := by
  constructor
  · intro h
    obtain ⟨l, hl, h⟩ := ok_of_bind h
    obtain ⟨ms, hms, h⟩ := ok_of_bind h
    obtain ⟨r, hr, h⟩ := ok_of_bind h
    obtain ⟨ns, hns, h⟩ := ok_of_bind h
    cases h
    obtain rfl := asNodes_eq_ok hms
    obtain rfl := asNodes_eq_ok hns
    exact ⟨ms, ns, hl, hr, rfl⟩
  · rintro ⟨ms, ns, hms, hns, rfl⟩
    exact bind_of_ok hms (bind_of_ok rfl (bind_of_ok hns (bind_of_ok rfl rfl)))

/-- Steps may be put behind the union or behind each of its sides. -/
theorem eval_union_followed {s : Step} :
    (Expr.filter (.binary .union e f) [] (s :: ss)).eval d c = .ok v ↔
      (Expr.binary .union (.filter e [] (s :: ss)) (.filter f [] (s :: ss))).eval d c = .ok v := by
  simp only [eval_filter_eq_ok_iff, eval_union_eq_ok_iff]
  constructor
  · rintro ⟨ks, reached, ⟨ms, ns, hms, hns, hunion⟩, hreached, rfl⟩
    cases hunion
    obtain ⟨here, there, hhere, hthere, rfl⟩ := (isAdditive_union s ss ms ns reached).mp hreached
    exact ⟨here, there, ⟨ms, here, hms, hhere, rfl⟩, ⟨ns, there, hns, hthere, rfl⟩, rfl⟩
  · rintro ⟨here, there, ⟨ms, _, hms, hhere, hleft⟩, ⟨ns, _, hns, hthere, hright⟩, rfl⟩
    cases hleft
    cases hright
    refine ⟨_, _, ⟨ms, ns, hms, hns, rfl⟩, ?_, rfl⟩
    exact (isAdditive_union s ss ms ns _).mpr ⟨here, there, hhere, hthere, rfl⟩

/-- Steps may be followed in two parts. -/
theorem walk_append (ss ts : List Step) (ns : List NodeId) :
    walk d (ss ++ ts) ns = walk d ss ns >>= walk d ts := by
  induction ss generalizing ns with
  | nil => rfl
  | cons s rest ih =>
    rw [List.cons_append, walk, walk, bind_assoc]
    exact bind_congr fun all => ih (documentOrder all)

/-- A path with more steps behind it goes on from the nodes that it selects. -/
theorem eval_path_append (absolute : Bool) (first ss : List Step) :
    (Expr.path absolute (first ++ ss)).eval d c =
      (Expr.filter (.path absolute first) [] ss).eval d c := by
  rw [Expr.eval, Expr.eval, Expr.eval, walk_append]
  cases walk d first [if absolute then Document.root else c.node] with
  | error e => rfl
  | ok ns =>
    change (walk d ss ns).map Value.nodes = walk d ss ns >>= fun reached => .ok (.nodes reached)
    cases walk d ss ns with
    | error e => rfl
    | ok reached => rfl

end Followed

/-- Steps lead from the nodes of two lists to the set of what they lead to from either, listed in
order, and they fail exactly if they fail from one of the two; so steps behind a union are steps
behind both of its sides. -/
theorem walk_additive (d : Document) (s : Step) (ss : List Step) :
    (∀ ms ns reached : List NodeId, walk d (s :: ss) (ms ++ ns) = .ok reached ↔
      ∃ here there, walk d (s :: ss) ms = .ok here ∧ walk d (s :: ss) ns = .ok there ∧
        reached = (here.toFinset ∪ there.toFinset).sort) ∧
    (∀ (e f : Expr) (c : Context) (v : Value),
      (Expr.filter (.binary .union e f) [] (s :: ss)).eval d c = .ok v ↔
        (Expr.binary .union (.filter e [] (s :: ss)) (.filter f [] (s :: ss))).eval d c = .ok v) ∧
    ∀ (absolute : Bool) (first : List Step) (c : Context),
      (Expr.path absolute (first ++ s :: ss)).eval d c =
        (Expr.filter (.path absolute first) [] (s :: ss)).eval d c := by
  refine ⟨fun ms ns reached => ?_, fun _ _ _ _ => eval_union_followed, fun absolute first _ =>
    eval_path_append absolute first (s :: ss)⟩
  have h := isAdditive_append (d := d) s ss ms ns reached
  simpa only [documentOrder_eq_sort, List.toFinset_append] using h

end ComputedField.Query
