import ComputedField.Proofs.Markup.Numbering

/-!
# The text below a node

The string value of a node in a numbered document is the character data of the content that has its
number.
-/

namespace ComputedField.Markup

variable {d : Document}

mutual

theorem Numbered.lt {parent first next : Nat} {c : Content} (h : Numbered d parent first c next) :
    first < next := by
  cases h with
  | text node => exact Nat.lt_succ_self first
  | element node owned inside =>
    have := inside.le
    omega

theorem NumberedAll.le {parent first next : Nat} {content : List Content} {ids : List Nat}
    (h : NumberedAll d parent first content ids next) : first ≤ next := by
  cases h with
  | nil => exact Nat.le_refl first
  | cons head tail =>
    have := head.lt
    have := tail.le
    omega

end

def Document.textsOf (d : Document) (ids : List NodeId) : String :=
  String.join (ids.filterMap d.text?)

@[simp] theorem textsOf_nil : d.textsOf [] = "" := by
  simp [Document.textsOf]

@[simp] theorem textsOf_append (a b : List NodeId) :
    d.textsOf (a ++ b) = d.textsOf a ++ d.textsOf b := by
  apply String.toList_injective
  simp [Document.textsOf, String.toList_join]

theorem textsOf_cons (n : NodeId) (ids : List NodeId) :
    d.textsOf (n :: ids) = (d.text? n).getD "" ++ d.textsOf ids := by
  cases h : d.text? n <;> simp [Document.textsOf, h]

theorem textsOf_flatMap (ns : List NodeId) (f : NodeId → List NodeId) :
    d.textsOf (ns.flatMap f) = String.join (ns.map fun n => d.textsOf (f n)) := by
  induction ns with
  | nil => rfl
  | cons n rest ih => rw [List.flatMap_cons, textsOf_append, ih, List.map_cons, String.join_cons]

/-- Nodes that are no texts may be left out. -/
theorem textsOf_filter {ns : List NodeId} {p : NodeId → Bool}
    (h : ∀ n ∈ ns, p n = false → d.text? n = none) : d.textsOf (ns.filter p) = d.textsOf ns := by
  induction ns with
  | nil => rfl
  | cons n rest ih =>
    have hrest := ih fun m hm => h m (List.mem_cons_of_mem n hm)
    cases hp : p n with
    | true => rw [List.filter_cons_of_pos hp, textsOf_cons, textsOf_cons, hrest]
    | false =>
      rw [List.filter_cons_of_neg (by simp [hp]), textsOf_cons, h n List.mem_cons_self hp, hrest,
        Option.getD_none, String.empty_append]

section Node

variable {n : NodeId} {node : Node}

theorem children_of_node (h : d.node? n = some node) : d.children n = node.children := by
  simp [Document.children, h]

theorem attributes_of_node (h : d.node? n = some node) : d.attributes n = node.attributes := by
  simp [Document.attributes, h]

theorem name_of_node (h : d.node? n = some node) : d.name n = node.name := by
  simp [Document.name, h]

theorem kind?_of_node (h : d.node? n = some node) : d.kind? n = some node.kind := by
  simp [Document.kind?, h]

theorem text?_of_node (h : d.node? n = some node) :
    d.text? n = if node.kind = .text then some node.value else none := by
  simp [Document.text?, h]

/-- The value of an element or the root is all text below it, in document order. -/
theorem stringValue_eq_textsOf (h : d.kind? n = some .root ∨ d.kind? n = some .element) :
    d.stringValue n = d.textsOf (d.descendants n) := by
  rcases h with h | h <;>
  · obtain ⟨node, hnode, hkind⟩ := Option.map_eq_some_iff.mp h
    simp only [Document.stringValue, hnode, hkind]
    rfl

theorem text?_eq_stringValue (h : d.kind? n = some .text) : d.text? n = some (d.stringValue n) := by
  obtain ⟨node, hnode, hkind⟩ := Option.map_eq_some_iff.mp h
  simp only [text?_of_node hnode, Document.stringValue, hnode, hkind, if_true]

theorem kind?_of_text? {value : String} (h : d.text? n = some value) :
    d.kind? n = some .text := by
  obtain ⟨node, hnode, h⟩ := Option.bind_eq_some_iff.mp h
  split at h
  · rename_i hkind
    rw [kind?_of_node hnode, hkind]
  · cases h

theorem text?_of_kind? (h : d.kind? n ≠ some .text) : d.text? n = none := by
  cases hvalue : d.text? n with
  | none => rfl
  | some value => exact absurd (kind?_of_text? hvalue) h

end Node

mutual

/-- As deep as the nodes of a piece of content go, the texts among them are its characters. -/
theorem Numbered.textsOf_below {parent first next : Nat} {c : Content}
    (h : Numbered d parent first c next) (depth : Nat) (enough : next ≤ first + depth + 1) :
    d.textsOf (first :: d.below depth first) = c.characters := by
  cases h with
  | text node =>
    have hbelow : d.below depth first = [] := by
      cases depth with
      | zero => rfl
      | succ depth => simp [Document.below, children_of_node node]
    simp [textsOf_cons, text?_of_node node, hbelow, Content.characters]
  | @element _ _ _ _ attributes content ids node owned inside =>
    have hinside : d.textsOf (d.below depth first) = charactersOf content := by
      cases depth with
      | zero =>
        have := inside.le
        have hnext : next = first + 1 + attributes.length := by omega
        subst hnext
        cases inside with
        | nil => simp [Document.below, charactersOf]
        | cons head tail =>
          have := head.lt
          have := tail.le
          omega
      | succ depth =>
        rw [Document.below, children_of_node node]
        exact inside.textsOf_below depth (by omega)
    simp [textsOf_cons, text?_of_node node, hinside, Content.characters]

/-- What is gathered below neighbours is what their content says, one after the other. -/
theorem NumberedAll.textsOf_below {parent first next : Nat} {content : List Content}
    {ids : List Nat} (h : NumberedAll d parent first content ids next) (depth : Nat)
    (enough : next ≤ first + depth + 1) :
    d.textsOf (ids.flatMap fun n => n :: d.below depth n) = charactersOf content := by
  cases h with
  | nil => simp [charactersOf]
  | cons head tail =>
    have := head.lt
    have := tail.le
    rw [List.flatMap_cons, textsOf_append, head.textsOf_below depth (by omega),
      tail.textsOf_below depth (by omega), charactersOf]

end

/-- The value of a node is what its content says. -/
theorem Numbered.stringValue {parent first next : Nat} {c : Content}
    (h : Numbered d parent first c next) (inside : next ≤ d.size) :
    d.stringValue first = c.characters := by
  have htexts := h.textsOf_below d.size (by omega)
  cases h with
  | text node => simp [Document.stringValue, node, Content.characters]
  | element node owned inner =>
    rw [textsOf_cons, text?_of_node node] at htexts
    rw [stringValue_eq_textsOf (.inr (kind?_of_node node)), Document.descendants]
    simpa using htexts

end ComputedField.Markup
