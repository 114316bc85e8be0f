import ComputedField.Proofs.Query.Axes

/-!
# Traversal of a document

What is below a node can be listed without recursion: the nodes still to be met are kept on a stack,
and whenever one is met, its children are put there. In a document that was read this comes to an end,
after as many rounds as there are nodes below, and it lists them as the recursion over children does.
The text that an element stands for is thus made of the texts that its children stand for.
-/

namespace ComputedField.Query

open Markup (Document NodeId)

/-- The nodes met so far, in order, and the nodes to be met yet, of which the last comes next. -/
structure Traversal where
  met : List NodeId
  pending : List NodeId
  deriving DecidableEq, Repr

namespace Traversal

variable (d : Document)

/-- In the beginning the children of a node are pending, the first child last. -/
def start (n : NodeId) : Traversal := ⟨[], (d.children n).reverse⟩

/-- The next node is met and its children become pending; none if no node is pending. -/
def round (t : Traversal) : Option Traversal :=
  t.pending.getLast?.map fun n => ⟨t.met ++ [n], t.pending.dropLast ++ (d.children n).reverse⟩

/-- So many rounds; none if nothing is pending before. -/
def rounds : Nat → Traversal → Option Traversal
  | 0, t => some t
  | k + 1, t => (round d t).bind (rounds k)

/-- All nodes that will be met from now on: each pending node and what is below it. -/
def ahead (t : Traversal) : List NodeId := t.pending.reverse.flatMap fun n => n :: d.descendants n

end Traversal

section Descendants

variable {d : Document} {n c : Nat} (wf : d.WellFormed)
include wf

/-- Children have greater numbers than their parent, so nothing is below the last node. -/
theorem below_last (h : d.size ≤ n + 1) (depth : Nat) : d.below depth n = [] := by
  have hnil : d.children n = [] := by
    refine List.eq_nil_iff_forall_not_mem.mpr fun c hc => ?_
    have hle : n + 1 ≤ c := lt_of_mem_children wf hc
    exact Nat.not_lt_of_le (Nat.le_trans h hle) (lt_size_of_mem_children wf hc)
  cases depth with
  | zero => rfl
  | succ depth => rw [Document.below, hnil, List.flatMap_nil]

/-- No way down is longer than the numbers left, so it is the same to go deeper. -/
theorem below_of_size_le {depth more : Nat} (h : d.size ≤ n + depth + 1)
    (hmore : d.size ≤ n + more + 1) : d.below depth n = d.below more n := by
  induction depth generalizing n more with
  | zero => rw [below_last wf h, below_last wf h]
  | succ depth ih =>
    cases more with
    | zero => rw [below_last wf hmore, below_last wf hmore]
    | succ more =>
      refine List.flatMap_congr fun c hc => ?_
      have hlt : n < c := lt_of_mem_children wf hc
      exact congrArg (c :: ·) (ih (by omega) (by omega))

/-- Each child comes right before its own descendants. -/
theorem descendants_eq_flatMap :
    d.descendants n = (d.children n).flatMap fun c => c :: d.descendants c := by
  have hdeeper : d.descendants n = d.below (d.size + 1) n :=
    below_of_size_le wf (by omega) (by omega)
  rw [hdeeper, Document.below]
  rfl

end Descendants

namespace Traversal

variable {d : Document} {t u : Traversal}

theorem ahead_eq_nil_iff : t.ahead d = [] ↔ t.pending = [] := by
  constructor
  · intro h
    refine List.eq_nil_iff_forall_not_mem.mpr fun n hn => ?_
    exact List.cons_ne_nil _ _ (List.flatMap_eq_nil_iff.mp h n (List.mem_reverse.mpr hn))
  · intro h
    rw [ahead, h, List.reverse_nil, List.flatMap_nil]

theorem exists_round (h : t.pending ≠ []) : ∃ u, t.round d = some u := by
  rw [round, List.getLast?_eq_some_getLast h]
  exact ⟨_, rfl⟩

variable (wf : d.WellFormed)
include wf

/-- A round meets the first of the nodes ahead, and the others stay ahead in the same order. -/
theorem ahead_of_round (h : t.round d = some u) :
    ∃ n, t.ahead d = n :: u.ahead d ∧ u.met = t.met ++ [n] := by
  obtain ⟨n, hn, rfl⟩ := Option.map_eq_some_iff.mp h
  refine ⟨n, ?_, rfl⟩
  obtain ⟨others, hothers⟩ := List.getLast?_eq_some_iff.mp hn
  simp only [ahead, hothers, List.dropLast_concat, List.reverse_append, List.reverse_reverse,
    List.reverse_singleton, List.singleton_append, List.flatMap_cons, List.flatMap_append]
  rw [← descendants_eq_flatMap wf, List.cons_append]

/-- A traversal meets all that is ahead of it, in one round each, and then nothing is pending. -/
theorem rounds_ahead (t : Traversal) :
    rounds d (t.ahead d).length t = some ⟨t.met ++ t.ahead d, []⟩ := by
  -- The induction is on what is ahead, from which each round takes one node.
  induction hahead : t.ahead d generalizing t with
  | nil =>
    have hpending := ahead_eq_nil_iff.mp hahead
    rw [List.length_nil, rounds, List.append_nil, ← hpending]
  | cons n rest ih =>
    have hpending : t.pending ≠ [] := fun hnil => by
      rw [ahead_eq_nil_iff.mpr hnil] at hahead
      cases hahead
    obtain ⟨u, hu⟩ := exists_round (d := d) hpending
    obtain ⟨m, hm, hmet⟩ := ahead_of_round wf hu
    obtain ⟨rfl, hrest⟩ := List.cons.inj (hahead.symm.trans hm)
    rw [List.length_cons, rounds, hu, Option.bind_some, ih u hrest.symm, hmet, List.append_assoc,
      List.singleton_append]

/-- From the children of a node, all descendants are met in as many rounds. -/
theorem rounds_start (n : NodeId) :
    rounds d (d.descendants n).length (start d n) = some ⟨d.descendants n, []⟩ := by
  have hahead : (start d n).ahead d = d.descendants n := by
    rw [ahead, start, List.reverse_reverse, ← descendants_eq_flatMap wf]
  have h := rounds_ahead wf (start d n)
  rwa [hahead] at h

end Traversal

section Texts

variable {d : Document} {n c : Nat} (wf : d.WellFormed)
include wf

/-- The texts of a child and of all below it are what the child stands for. -/
theorem textsOf_of_mem_children (hc : c ∈ d.children n) :
    d.textsOf (c :: d.descendants c) = d.stringValue c := by
  rcases (wf.children n c hc).2 with hkind | hkind
  · rw [Markup.textsOf_cons, Markup.text?_of_kind? (by simp [hkind]), Option.getD_none,
      String.empty_append, Markup.stringValue_eq_textsOf (.inr hkind)]
  · have hnil : d.descendants c = [] := by
      rw [descendants_eq_flatMap wf, (wf.leaves c (.inr hkind)).1, List.flatMap_nil]
    rw [Markup.textsOf_cons, Markup.text?_eq_stringValue hkind, hnil, Option.getD_some,
      Markup.textsOf_nil, String.append_empty]

theorem stringValue_eq_join_children (h : d.kind? n = some .root ∨ d.kind? n = some .element) :
    d.stringValue n = String.join ((d.children n).map d.stringValue) := by
  rw [Markup.stringValue_eq_textsOf h, descendants_eq_flatMap wf, Markup.textsOf_flatMap]
  exact congrArg String.join (List.map_congr_left fun c hc => textsOf_of_mem_children wf hc)

/-- Below the root is all but the root itself and the attributes. -/
theorem descendants_root :
    d.descendants Document.root =
      (List.range d.size).filter fun n => n ≠ Document.root ∧ d.kind? n ≠ some .attribute := by
  refine eq_of_ascending (ascending_below wf _ _) (List.pairwise_lt_range.filter _) fun m => ?_
  rw [mem_descendants_iff wf, List.mem_filter, List.mem_range, decide_eq_true_iff]
  constructor
  · rintro ⟨hkind, path⟩
    exact ⟨path.lt_size, Nat.ne_of_gt (path.lt wf), hkind⟩
  · rintro ⟨hlt, hroot, hkind⟩
    exact ⟨hkind, encloses_root wf (Nat.pos_of_ne_zero hroot) hlt⟩

theorem stringValue_root : d.stringValue Document.root = d.textsOf (List.range d.size) := by
  rw [Markup.stringValue_eq_textsOf (.inl wf.root.1), descendants_root wf]
  refine Markup.textsOf_filter fun n _ hn => Markup.text?_of_kind? fun htext => ?_
  have hout : ¬ (n ≠ Document.root ∧ d.kind? n ≠ some .attribute) := of_decide_eq_false hn
  refine hout ⟨?_, by simp [htext]⟩
  rintro rfl
  cases htext.symm.trans wf.root.1

end Texts

/-- In a document that was read, a traversal from any node ends and lists what is below the node: each
child in its turn and what is below that child, in document order. A root or element stands for what
its children stand for, one after the other, and so the root for all texts in document order. -/
theorem traversed_in_preorder_and_texts_joined {d : Document}
    (hd : d = .empty ∨ ∃ text, Document.parse text = .ok d) :
    (∀ n : NodeId,
      Traversal.rounds d (d.descendants n).length (.start d n) = some ⟨d.descendants n, []⟩ ∧
      d.descendants n = (d.children n).flatMap (fun c => c :: d.descendants c) ∧
      (d.descendants n).Pairwise (· < ·)) ∧
    (∀ n : NodeId, d.kind? n = some .root ∨ d.kind? n = some .element →
      d.stringValue n = String.join ((d.children n).map d.stringValue)) ∧
    d.stringValue Document.root = String.join ((List.range d.size).filterMap d.text?) := by
  have wf := wellFormed_of_empty_or_parse hd
  refine ⟨fun n => ⟨?_, ?_, ?_⟩, fun n => ?_, ?_⟩
  · exact Traversal.rounds_start wf n
  · exact descendants_eq_flatMap wf
  · exact ascending_below wf d.size n
  · exact stringValue_eq_join_children wf
  · exact stringValue_root wf

/-- An element with an attribute, and texts on both sides of an element with a text of its own. -/
theorem traversed_in_preorder_and_texts_joined_nested :
    ∃ d, Document.parse "<a x='1'>one <b>two</b> three</a>" = .ok d ∧
      Traversal.rounds d 5 (.start d 0) = some ⟨[1, 3, 4, 5, 6], []⟩ ∧
      [1, 3, 4, 5, 6].Pairwise (· < ·) ∧
      d.kind? 1 = some .element ∧
      d.stringValue 1 = String.join [d.stringValue 3, d.stringValue 4, d.stringValue 6] ∧
      d.stringValue Document.root = "one two three" := by
  let d : Document := .ofContent [.element "a" [⟨"x", "1"⟩]
    [.text "one ", .element "b" [] [.text "two"], .text " three"]]
  have hd : Document.parse "<a x='1'>one <b>two</b> three</a>" = .ok d := by decide +kernel
  have hbelow : d.descendants 0 = [1, 3, 4, 5, 6] := by decide +kernel
  have hkind : d.kind? 1 = some .element := by decide +kernel
  have hchildren : d.children 1 = [3, 4, 6] := by decide +kernel
  obtain ⟨htraversed, hjoined, hall⟩ := traversed_in_preorder_and_texts_joined (.inr ⟨_, hd⟩)
  obtain ⟨hrounds, -, hascending⟩ := htraversed 0
  rw [hbelow] at hrounds hascending
  have htext := hjoined 1 (.inr hkind)
  rw [hchildren] at htext
  exact ⟨d, hd, hrounds, hascending, hkind, htext, hall.trans (by decide +kernel)⟩

end ComputedField.Query
