import ComputedField.Markup.Reader
import ComputedField.Proofs.Query.Kind

/-!
# Predicates and places

A predicate is asked of each candidate where it stands among all of them. One that asks nowhere but in
predicates of its own for a position or for the number of candidates, and that is no number, judges each
node by itself: such predicates in a row are one filter. Behind any other predicate that is no number
they may as well be joined to it by `and`.
-/

namespace ComputedField.Query

open Markup (Document NodeId)

/-- Whether a function asks where a node stands among its fellows. -/
def Function.AsksPlace : Function → Prop
  | .position | .last => True
  | _ => False

mutual

/-- Whether an expression asks nowhere but in predicates where a node stands among its fellows. -/
def Expr.IgnoresPlace : Expr → Prop
  | .binary _ left right => left.IgnoresPlace ∧ right.IgnoresPlace
  | .negate e => e.IgnoresPlace
  | .path .. => True
  | .filter primary _ _ => primary.IgnoresPlace
  | .literal _ => True
  | .number _ => True
  | .call f arguments => ¬ f.AsksPlace ∧ AllIgnorePlace arguments

def AllIgnorePlace : List Expr → Prop
  | [] => True
  | e :: rest => e.IgnoresPlace ∧ AllIgnorePlace rest

end

/-- Functions that do not ask for the place depend on the node alone. -/
theorem call_of_node_eq {d : Document} {c c' : Context} (hc : c.node = c'.node) {f : Function}
    (hf : ¬ f.AsksPlace) (vs : List Value) : c.call d f vs = c'.call d f vs := by
  have htext : textOr d c = textOr d c' := by
    funext v
    cases v <;> simp only [textOr, hc]
  have hname : nameOr d c = nameOr d c' := by
    funext v
    cases v <;> simp only [nameOr, hc]
  unfold Context.call
  split
  all_goals first
    | rfl
    | simp only [htext, hname, hc]
    | exact absurd trivial hf

mutual

/-- What asks for no place has the same value at all places. -/
theorem eval_of_node_eq (d : Document) (e : Expr) (he : e.IgnoresPlace) {c c' : Context}
    (hc : c.node = c'.node) : e.eval d c = e.eval d c' := by
  match e with
  | .binary .or left right | .binary .and left right | .binary (.compare op) left right
  | .binary (.arith op) left right | .binary .union left right =>
    simp only [Expr.eval, eval_of_node_eq d left he.1 hc, eval_of_node_eq d right he.2 hc]
  | .negate e => simp only [Expr.eval, eval_of_node_eq d e he hc]
  | .path absolute steps => simp only [Expr.eval, hc]
  | .filter primary predicates steps => simp only [Expr.eval, eval_of_node_eq d primary he hc]
  | .literal s => rfl
  | .number x => rfl
  | .call f arguments =>
    simp only [Expr.eval, evalAll_of_node_eq d arguments he.2 hc, call_of_node_eq hc he.1]

theorem evalAll_of_node_eq (d : Document) (es : List Expr) (hes : AllIgnorePlace es) {c c' : Context}
    (hc : c.node = c'.node) : evalAll d es c = evalAll d es c' := by
  match es with
  | [] => rfl
  | e :: rest =>
    simp only [evalAll, eval_of_node_eq d e hes.1 hc, evalAll_of_node_eq d rest hes.2 hc]

end

section Verdicts

/-- Whether an expression, as a predicate, judges each node by itself: it asks for no position, nor
does it stand for one, as numbers do. -/
structure Expr.JudgesAlone (e : Expr) : Prop where
  ignoresPlace : e.IgnoresPlace
  notNumber : e.kind ≠ .number

variable (d : Document)

/-- What a predicate says of a node that stands alone, if it has a value there. -/
def Expr.verdict? (p : Expr) (n : NodeId) : Option Bool :=
  (p.eval d ⟨n, 1, 1⟩).toOption.map Value.toTruth

/-- What predicates say of a node one after the other, until one of them drops it. -/
def verdict? : List Expr → NodeId → Option Bool
  | [], _ => some true
  | p :: rest, n => (p.verdict? d n).bind fun kept => if kept then verdict? rest n else some false

end Verdicts

section Keeping

variable {d : Document} {p q : Expr} {n size position : Nat} {ns kept : List NodeId}

theorem Value.keeps_of_kind_ne {v : Value} (h : v.kind ≠ .number) (position : Nat) :
    v.keeps position = v.toTruth := by
  match v with
  | .nodes ns => rfl
  | .atom (.text s) => rfl
  | .atom (.truth b) => rfl
  | .atom (.number x) => exact absurd rfl h

@[simp] theorem toTruth_truth (b : Bool) : (Value.atom (.truth b)).toTruth = b := rfl

/-- The first node is judged, and the others behind it. -/
theorem keepFrom_cons_eq_ok_iff (hp : p.kind ≠ .number) {rest : List NodeId} :
    keepFrom (p.eval d) size position (n :: rest) = .ok kept ↔
      ∃ v others, p.eval d ⟨n, position, size⟩ = .ok v ∧
        keepFrom (p.eval d) size (position + 1) rest = .ok others ∧
        kept = if v.toTruth then n :: others else others := by
  constructor
  · intro h
    obtain ⟨v, hv, h⟩ := ok_of_bind h
    obtain ⟨others, hothers, h⟩ := ok_of_bind h
    cases h
    have hkind : v.kind ≠ .number := kind_of_eval hv ▸ hp
    rw [Value.keeps_of_kind_ne hkind]
    exact ⟨v, others, hv, hothers, rfl⟩
  · rintro ⟨v, others, hv, hothers, rfl⟩
    have hkind : v.kind ≠ .number := kind_of_eval hv ▸ hp
    rw [← Value.keeps_of_kind_ne hkind position]
    exact bind_of_ok hv (bind_of_ok hothers rfl)

theorem Expr.JudgesAlone.verdict?_eq_some_iff (hp : p.JudgesAlone) {b : Bool} (c : Context) :
    p.verdict? d c.node = some b ↔ ∃ v, p.eval d c = .ok v ∧ v.toTruth = b := by
  have heval : p.eval d ⟨c.node, 1, 1⟩ = p.eval d c := eval_of_node_eq d p hp.ignoresPlace rfl
  rw [Expr.verdict?, heval]
  cases p.eval d c with
  | error e => simp [Except.toOption]
  | ok v => simp [Except.toOption]

/-- A predicate that judges alone is a filter. -/
theorem Expr.JudgesAlone.keepFrom_eq_ok_iff (hp : p.JudgesAlone) :
    keepFrom (p.eval d) size position ns = .ok kept ↔
      (∀ n ∈ ns, (p.verdict? d n).isSome) ∧ kept = ns.filter fun n => p.verdict? d n = some true := by
  induction ns generalizing position kept with
  | nil =>
    rw [List.filter_nil]
    exact ⟨fun h => ⟨by simp, (Except.ok.inj h).symm⟩, fun h => congrArg Except.ok h.2.symm⟩
  | cons n rest ih =>
    rw [keepFrom_cons_eq_ok_iff hp.notNumber, List.forall_mem_cons, List.filter_cons]
    have hverdict := fun b => hp.verdict?_eq_some_iff (d := d) (b := b) ⟨n, position, size⟩
    constructor
    · rintro ⟨v, others, hv, hothers, rfl⟩
      obtain ⟨hrest, rfl⟩ := ih.mp hothers
      have hn : p.verdict? d n = some v.toTruth := (hverdict _).mpr ⟨v, hv, rfl⟩
      exact ⟨⟨by rw [hn]; rfl, hrest⟩, by simp only [hn, Option.some.injEq, decide_eq_true_eq]⟩
    · rintro ⟨⟨hn, hrest⟩, rfl⟩
      obtain ⟨b, hb⟩ := Option.isSome_iff_exists.mp hn
      obtain ⟨v, hv, rfl⟩ := (hverdict b).mp hb
      exact ⟨v, _, hv, ih.mpr ⟨hrest, rfl⟩, by simp [hb]⟩

theorem narrow_cons_eq_ok_iff {rest : List Expr} : narrow d (p :: rest) ns = .ok kept ↔
    ∃ first, keepFrom (p.eval d) ns.length 1 ns = .ok first ∧ narrow d rest first = .ok kept := by
  constructor
  · exact ok_of_bind
  · rintro ⟨first, hfirst, h⟩
    exact bind_of_ok hfirst h

@[simp] theorem verdict?_nil (d : Document) (n : NodeId) : verdict? d [] n = some true := rfl

theorem isSome_verdict?_cons {rest : List Expr} : (verdict? d (p :: rest) n).isSome ↔
    (p.verdict? d n).isSome ∧ (p.verdict? d n = some true → (verdict? d rest n).isSome) := by
  rw [verdict?]
  rcases p.verdict? d n with - | - | - <;> simp

theorem verdict?_cons_eq_true {rest : List Expr} : verdict? d (p :: rest) n = some true ↔
    verdict? d rest n = some true ∧ p.verdict? d n = some true := by
  rw [verdict?]
  rcases p.verdict? d n with - | - | - <;> simp

/-- Predicates that judge alone are one filter together. -/
theorem narrow_eq_ok_iff {ps : List Expr} (hps : ∀ p ∈ ps, p.JudgesAlone) :
    narrow d ps ns = .ok kept ↔
      (∀ n ∈ ns, (verdict? d ps n).isSome) ∧ kept = ns.filter fun n => verdict? d ps n = some true := by
  induction ps generalizing ns with
  | nil => simp [narrow, verdict?, eq_comm]
  | cons p rest ih =>
    obtain ⟨hp, hrest⟩ := List.forall_mem_cons.mp hps
    simp only [narrow_cons_eq_ok_iff, hp.keepFrom_eq_ok_iff, ih hrest, isSome_verdict?_cons,
      verdict?_cons_eq_true]
    constructor
    · rintro ⟨first, ⟨hall, rfl⟩, hfirst, rfl⟩
      refine ⟨fun n hn => ⟨hall n hn, fun h => hfirst n ?_⟩, ?_⟩
      · exact List.mem_filter.mpr ⟨hn, decide_eq_true h⟩
      · simp only [List.filter_filter, Bool.decide_and]
    · rintro ⟨hall, rfl⟩
      refine ⟨_, ⟨fun n hn => (hall n hn).1, rfl⟩, fun n hn => ?_, ?_⟩
      · obtain ⟨hn, h⟩ := List.mem_filter.mp hn
        exact (hall n hn).2 (of_decide_eq_true h)
      · simp only [List.filter_filter, Bool.decide_and]

/-- A conjunction asks its second side only of the nodes that the first one keeps. -/
theorem Expr.JudgesAlone.eval_and_eq_ok_iff (hq : q.JudgesAlone) {c : Context} {v : Value} :
    (Expr.binary .and p q).eval d c = .ok v ↔
      ∃ u, p.eval d c = .ok u ∧ (u.toTruth = true → (q.verdict? d c.node).isSome) ∧
        v = .atom (.truth (u.toTruth && q.verdict? d c.node = some true)) := by
  have hverdict := fun b => hq.verdict?_eq_some_iff (d := d) (b := b) c
  constructor
  · intro h
    obtain ⟨u, hu, h⟩ := ok_of_bind h
    split at h
    · rename_i htrue
      obtain ⟨w, hw, h⟩ := ok_of_bind h
      cases h
      have hq := (hverdict w.toTruth).mpr ⟨w, hw, rfl⟩
      exact ⟨u, hu, by simp [hq], by simp [hq, htrue]⟩
    · rename_i hfalse
      cases h
      exact ⟨u, hu, by simp [hfalse], by simp [hfalse]⟩
  · rintro ⟨u, hu, hq, rfl⟩
    refine bind_of_ok hu ?_
    split
    · rename_i htrue
      obtain ⟨b, hb⟩ := Option.isSome_iff_exists.mp (hq htrue)
      obtain ⟨w, hw, rfl⟩ := (hverdict b).mp hb
      exact bind_of_ok hw (by simp [ofTruth, htrue, hb])
    · rename_i hfalse
      simp [ofTruth, hfalse]

/-- A conjunction asks the first predicate where it stood all along, and the second one does not mind
that its candidates were fewer. -/
theorem Expr.JudgesAlone.keepFrom_and_eq_ok_iff (hp : p.kind ≠ .number) (hq : q.JudgesAlone) :
    keepFrom ((Expr.binary .and p q).eval d) size position ns = .ok kept ↔
      ∃ first, keepFrom (p.eval d) size position ns = .ok first ∧
        keepFrom (q.eval d) first.length 1 first = .ok kept := by
  have hand : (Expr.binary .and p q).kind ≠ .number := fun h => by cases h
  -- Once `q` is a filter, only the places of `p` matter, and both sides count them alike.
  simp only [hq.keepFrom_eq_ok_iff]
  induction ns generalizing position kept with
  | nil =>
    constructor
    · intro h
      cases h
      exact ⟨[], rfl, by simp, rfl⟩
    · rintro ⟨first, h, -, rfl⟩
      cases h
      rfl
  | cons n rest ih =>
    simp only [keepFrom_cons_eq_ok_iff hand, keepFrom_cons_eq_ok_iff hp, hq.eval_and_eq_ok_iff, ih]
    constructor
    · rintro ⟨_, _, ⟨u, hu, hn, rfl⟩, ⟨first, hfirst, hall, rfl⟩, rfl⟩
      refine ⟨_, ⟨u, first, hu, hfirst, rfl⟩, ?_⟩
      cases h : u.toTruth with
      | true => simpa [h, List.filter_cons] using ⟨hn h, hall⟩
      | false => simpa [h] using hall
    · rintro ⟨_, ⟨u, first, hu, hfirst, rfl⟩, hall, rfl⟩
      cases h : u.toTruth with
      | true =>
        rw [h, if_pos rfl, List.forall_mem_cons] at hall
        refine ⟨_, _, ⟨u, hu, fun _ => hall.1, rfl⟩, ⟨first, hfirst, hall.2, rfl⟩, ?_⟩
        simp [h, List.filter_cons]
      | false =>
        rw [h, if_neg Bool.false_ne_true] at hall
        have hn : u.toTruth = true → (q.verdict? d n).isSome := fun htrue => by simp [h] at htrue
        refine ⟨_, _, ⟨u, hu, hn, rfl⟩, ⟨first, hfirst, hall, rfl⟩, ?_⟩
        simp [h]

theorem narrow_singleton (p : Expr) (ns : List NodeId) :
    narrow d [p] ns = keepFrom (p.eval d) ns.length 1 ns := bind_pure _

end Keeping

/-- Two predicates in a row, neither of them a number, keep what their conjunction keeps and fail where
it fails, if the second one does not ask for its place; and where both judge alone, they may change
places, if they succeed in both orders. -/
theorem narrow_and (d : Document) {p q : Expr} (hp : p.kind ≠ .number) (hq : q.JudgesAlone)
    (ns : List NodeId) :
    (∀ kept, narrow d [p, q] ns = .ok kept ↔ narrow d [.binary .and p q] ns = .ok kept) ∧
    (p.IgnoresPlace → ∀ kept others, narrow d [p, q] ns = .ok kept → narrow d [q, p] ns = .ok others →
      kept = others) := by
  refine ⟨fun kept => ?_, fun hplace kept others hkept hothers => ?_⟩
  · rw [narrow_singleton, hq.keepFrom_and_eq_ok_iff hp, narrow_cons_eq_ok_iff]
    simp only [narrow_singleton]
  · have hpair : ∀ r ∈ [p, q], r.JudgesAlone := by simpa using ⟨⟨hplace, hp⟩, hq⟩
    have hswapped : ∀ r ∈ [q, p], r.JudgesAlone := by simpa using ⟨hq, ⟨hplace, hp⟩⟩
    rw [((narrow_eq_ok_iff hpair).mp hkept).2, ((narrow_eq_ok_iff hswapped).mp hothers).2]
    refine List.filter_congr fun n _ => ?_
    rw [decide_eq_decide]
    simp only [verdict?_cons_eq_true, verdict?_nil, true_and]
    exact and_comm

/-- A predicate for the second place with one for an attribute, and two for attributes. -/
theorem narrow_and_position :
    ∃ (d : Document) (p q r : Expr), Document.parse "<r><a/><b x='1'/><c x='2' y='3'/></r>" = .ok d ∧
      p = .binary (.compare .eq) (.call .position []) (.number 2.0) ∧ p.kind ≠ .number ∧
      q.JudgesAlone ∧ r.JudgesAlone ∧
      narrow d [p, q] [2, 3, 5] = .ok [3] ∧ narrow d [.binary .and p q] [2, 3, 5] = .ok [3] ∧
      narrow d [q, p] [2, 3, 5] = .ok [5] ∧ narrow d [q, r] [2, 3, 5] = .ok [5] ∧
      ∀ kept, narrow d [r, q] [2, 3, 5] = .ok kept → kept = [5] := by
  have hd : Document.parse "<r><a/><b x='1'/><c x='2' y='3'/></r>" =
      .ok (.ofContent [.element "r" [] [.element "a" [] [], .element "b" [⟨"x", "1"⟩] [],
        .element "c" [⟨"x", "2"⟩, ⟨"y", "3"⟩] []]]) := by
    decide +kernel
  have halone : ∀ name, (Expr.path false [.mk .attribute (.name name) []]).JudgesAlone :=
    fun name => ⟨trivial, nofun⟩
  have hsecond : (Expr.binary (.compare .eq) (.call .position []) (.number 2.0)).kind ≠ .number := nofun
  refine ⟨_, _, .path false [.mk .attribute (.name "x") []], .path false [.mk .attribute (.name "y") []],
    hd, rfl, hsecond, halone "x", halone "y", by decide +kernel, ?_, by decide +kernel,
    by decide +kernel, fun kept hkept => ?_⟩
  · exact ((narrow_and _ hsecond (halone "x") [2, 3, 5]).1 [3]).mp (by decide +kernel)
  · exact (narrow_and _ (halone "y").notNumber (halone "x") [2, 3, 5]).2 trivial kept [5] hkept
      (by decide +kernel)

end ComputedField.Query
