import ComputedField.Markup.Document

/-!
# Numbering in document order

What it means that the nodes of a document are those of a tree: every piece of content has the
number that comes next, its attributes the numbers after it, and its own content the numbers after
those. `Document.ofContent` numbers its content so.
-/

namespace ComputedField.Markup

mutual

/-- The nodes from `first` on and before `next` are a piece of content under `parent`. -/
inductive Numbered (d : Document) : Nat → Nat → Content → Nat → Prop where
  | text {parent first : Nat} {value : String}
      (node : d.node? first = some ⟨.text, "", value, some parent, [], []⟩) :
      Numbered d parent first (.text value) (first + 1)
  | element {parent first next : Nat} {name : String} {attributes : List Attribute}
      {content : List Content} {ids : List Nat}
      (node : d.node? first = some ⟨.element, name, "", some parent, ids,
        List.range' (first + 1) attributes.length⟩)
      (owned : ∀ i a, attributes[i]? = some a →
        d.node? (first + 1 + i) = some ⟨.attribute, a.name, a.value, some first, [], []⟩)
      (inside : NumberedAll d first (first + 1 + attributes.length) content ids next) :
      Numbered d parent first (.element name attributes content) next

/-- The nodes from `first` on and before `next` are neighbours under `parent`, numbered `ids`. -/
inductive NumberedAll (d : Document) : Nat → Nat → List Content → List Nat → Nat → Prop where
  | nil {parent first : Nat} : NumberedAll d parent first [] [] first
  | cons {parent first middle next : Nat} {c : Content} {rest : List Content}
      {ids : List Nat} (head : Numbered d parent first c middle)
      (tail : NumberedAll d parent middle rest ids next) :
      NumberedAll d parent first (c :: rest) (first :: ids) next

end

structure Document.IsNumberingOf (d : Document) (c : Content) : Prop where
  root : d.node? Document.root = some ⟨.root, "", "", none, [1], []⟩
  content : Numbered d Document.root 1 c d.size

variable {d : Document}

mutual

/-- Nodes that are there in order are a numbering of the piece that they are laid out for. -/
theorem numbered_of_nodes (parent first : Nat) (c : Content)
    (h : ∀ i node, (c.nodes parent first)[i]? = some node → d.node? (first + i) = some node) :
    Numbered d parent first c (first + c.size) := by
  cases c with
  | text value =>
    apply Numbered.text
    simpa [Content.nodes] using h 0
  | element name attributes content =>
    simp only [Content.nodes] at h
    have inside : NumberedAll d first (first + 1 + attributes.length) content
        (numbers (first + 1 + attributes.length) content)
        (first + 1 + attributes.length + sizes content) := by
      apply numberedAll_of_layOut
      intro i node hi
      rw [show first + 1 + attributes.length + i = first + (attributes.length + i + 1) by omega]
      apply h
      rw [List.getElem?_cons_succ, List.getElem?_append_right (by simp)]
      simpa using hi
    have hn : first + (Content.element name attributes content).size =
        first + 1 + attributes.length + sizes content := by
      simp only [Content.size]
      omega
    rw [hn]
    refine Numbered.element (by simpa using h 0) ?_ inside
    intro i a ha
    have hi : i < attributes.length := (List.getElem?_eq_some_iff.mp ha).1
    rw [show first + 1 + i = first + (i + 1) by omega]
    apply h
    rw [List.getElem?_cons_succ, List.getElem?_append_left (by simpa using hi)]
    simp [ha, attributeNode]

theorem numberedAll_of_layOut (parent first : Nat) (content : List Content)
    (h : ∀ i node, (layOut parent first content)[i]? = some node →
      d.node? (first + i) = some node) :
    NumberedAll d parent first content (numbers first content) (first + sizes content) := by
  cases content with
  | nil => exact .nil
  | cons c rest =>
    simp only [layOut] at h
    have head : Numbered d parent first c (first + c.size) := by
      apply numbered_of_nodes
      intro i node hi
      apply h
      rw [List.getElem?_append_left (List.getElem?_eq_some_iff.mp hi).1]
      exact hi
    have tail : NumberedAll d parent (first + c.size) rest (numbers (first + c.size) rest)
        (first + c.size + sizes rest) := by
      apply numberedAll_of_layOut
      intro i node hi
      rw [Nat.add_assoc]
      apply h
      rw [List.getElem?_append_right (by simp [Content.length_nodes])]
      simpa [Content.length_nodes] using hi
    rw [Nat.add_assoc] at tail
    exact .cons head tail

end

theorem numberedAll_ofContent (content : List Content) :
    NumberedAll (Document.ofContent content) Document.root 1 content (numbers 1 content)
      (Document.ofContent content).size := by
  rw [Document.size_ofContent]
  apply numberedAll_of_layOut
  intro i node hi
  simpa [Document.node?, Document.ofContent, Document.root, Nat.add_comm 1 i] using hi

/-- A document that is laid out for one piece is a numbering of it. -/
theorem isNumberingOf_ofContent (c : Content) : (Document.ofContent [c]).IsNumberingOf c := by
  constructor
  · simp [Document.node?, Document.ofContent, Document.root, numbers]
  · cases numberedAll_ofContent [c] with
    | cons head tail =>
      cases tail
      exact head

end ComputedField.Markup
