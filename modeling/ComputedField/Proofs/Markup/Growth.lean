import ComputedField.Markup.Growth
import ComputedField.Proofs.Markup.Resume

/-!
# A growing document is the layout of what was read

A document that grows with its markup is at each moment the layout of the tree that has been read, in
which the open elements end at once. Growing and laying out come to the same document or the same error.
-/

namespace ComputedField.Markup

open Text

section Lists

variable {α : Type} {f : α → α}

theorem modify_append_of_lt {l r : List α} {i : Nat} (h : i < l.length) :
    (l ++ r).modify i f = l.modify i f ++ r := by
  induction l generalizing i with
  | nil => cases h
  | cons x l ih =>
    cases i with
    | zero => rfl
    | succ i =>
      rw [List.cons_append, List.modify_succ_cons, List.modify_succ_cons,
        ih (Nat.lt_of_succ_lt_succ h), List.cons_append]

theorem modify_append_length (l r : List α) : (l ++ r).modify l.length f = l ++ r.modify 0 f := by
  induction l with
  | nil => rfl
  | cons x l ih => rw [List.cons_append, List.length_cons, List.modify_succ_cons, ih, List.cons_append]

end Lists

theorem numbers_append (start : NodeId) (a b : List Content) :
    numbers start (a ++ b) = numbers start a ++ numbers (start + sizes a) b := by
  induction a generalizing start with
  | nil => rfl
  | cons c rest ih => simp [numbers, sizes, ih, Nat.add_assoc]

/-- What is added at the end of an element comes behind all its nodes. -/
theorem nodes_element_concat (name : String) (attributes : List Attribute) (content : List Content)
    (c : Content) (parent id : NodeId) :
    (Content.element name attributes (content ++ [c])).nodes parent id =
      ((Content.element name attributes content).nodes parent id).modify 0
          (·.withChild (id + (Content.element name attributes content).size)) ++
        c.nodes id (id + (Content.element name attributes content).size) := by
  have hnext : id + 1 + attributes.length + sizes content =
      id + (Content.element name attributes content).size := by
    rw [Content.size, Nat.add_assoc id, Nat.add_assoc id]
  simp only [Content.nodes, numbers_append, layOut_append, numbers, layOut, List.append_nil, hnext,
    List.modify_zero_cons, Node.withChild, List.cons_append, List.append_assoc]

theorem Document.eq_of_toList {d d' : Document} (h : d.nodes.toList = d'.nodes.toList) : d = d' :=
  congrArg Document.mk (Array.toList_inj.mp h)

namespace Progress

/-- How many nodes there are, in the root and the open elements. -/
def count (top : List Content) : List OpenElement → Nat
  | [] => 1 + sizes top.reverse
  | e :: outer => count top outer + (Content.element e.name e.attributes e.content.reverse).size

/-- The number of the innermost open element, or of the root. -/
def place (top : List Content) : List OpenElement → NodeId
  | [] => Document.root
  | _ :: outer => count top outer

/-- The nodes of what has been read, as if every open element ended here. -/
def nodes (top : List Content) : List OpenElement → List Node
  | [] => ⟨.root, "", "", none, numbers 1 top.reverse, []⟩ :: layOut Document.root 1 top.reverse
  | e :: outer =>
    (nodes top outer).modify (place top outer) (·.withChild (count top outer)) ++
      (Content.element e.name e.attributes e.content.reverse).nodes (place top outer) (count top outer)

def places (top : List Content) : List OpenElement → List NodeId
  | [] => [Document.root]
  | e :: outer => place top (e :: outer) :: places top outer

/-- What has been read, as a document that grows. -/
def growth (p : Progress) : Growth where
  document := ⟨(nodes p.top p.opened).toArray⟩
  stack := places p.top p.opened
  run := p.run

section Nodes

variable {top : List Content} {opened : List OpenElement} {p : Progress}

theorem length_nodes (top : List Content) (opened : List OpenElement) :
    (nodes top opened).length = count top opened := by
  induction opened with
  | nil => rw [nodes, count, List.length_cons, length_layOut, Nat.add_comm]
  | cons e outer ih =>
    rw [nodes, count, List.length_append, List.length_modify, ih, Content.length_nodes]

theorem length_nodes_withChild (top : List Content) (opened : List OpenElement) (id : NodeId) :
    ((nodes top opened).modify (place top opened) (·.withChild id)).length = count top opened := by
  rw [List.length_modify, length_nodes]

theorem place_lt_count (top : List Content) (opened : List OpenElement) :
    place top opened < count top opened := by
  cases opened with
  | nil => exact Nat.lt_of_lt_of_le Nat.zero_lt_one (Nat.le_add_right 1 _)
  | cons e outer =>
    rw [place, count]
    exact Nat.lt_add_of_pos_right (Content.size_pos _)

theorem stack_growth_nil (h : p.opened = []) : p.growth.stack = [Document.root] := by
  rw [growth, h]
  rfl

/-- Under the number of an open element there is that of the element around it, or of the root. -/
theorem exists_stack_growth {e : OpenElement} {outer : List OpenElement} (h : p.opened = e :: outer) :
    ∃ others, p.growth.stack = count p.top outer :: place p.top outer :: others ∧
      places p.top outer = place p.top outer :: others := by
  rw [growth, h]
  cases outer <;> exact ⟨_, rfl, rfl⟩

theorem current_growth (p : Progress) : p.growth.current = place p.top p.opened := by
  rw [Growth.current, growth]
  cases p.opened <;> rfl

theorem size_growth (p : Progress) : p.growth.document.size = count p.top p.opened := by
  rw [Document.size, growth, List.size_toArray, length_nodes]

theorem places_add (p : Progress) (c : Content) :
    places (p.add c).top (p.add c).opened = places p.top p.opened := by
  rw [add]
  cases p.opened <;> rfl

/-- What is added comes behind all nodes, and its number among the children of the innermost element. -/
theorem nodes_add (p : Progress) (c : Content) :
    nodes (p.add c).top (p.add c).opened =
      (nodes p.top p.opened).modify (place p.top p.opened) (·.withChild (count p.top p.opened)) ++
        c.nodes (place p.top p.opened) (count p.top p.opened) := by
  rw [add]
  cases p.opened with
  | nil =>
    simp only [nodes, place, count, Document.root, List.reverse_cons, numbers_append, layOut_append,
      List.modify_zero_cons, numbers, layOut, List.append_nil, List.cons_append]
    rfl
  | cons e outer =>
    have hlength := length_nodes_withChild p.top outer (count p.top outer)
    have hmodify := modify_append_length (f := (·.withChild (count p.top (e :: outer))))
      ((nodes p.top outer).modify (place p.top outer) (·.withChild (count p.top outer)))
      ((Content.element e.name e.attributes e.content.reverse).nodes (place p.top outer)
        (count p.top outer))
    rw [hlength] at hmodify
    rw [nodes, List.reverse_cons, nodes_element_concat, ← List.append_assoc]
    rw [nodes, place, hmodify]
    rfl

/-- A piece changes the nodes, but not where the next one goes. -/
theorem growth_add (p : Progress) (c : Content) :
    (p.add c).growth = { p.growth with document := (p.add c).growth.document } := by
  rw [growth, growth, places_add, run_add]

/-- Closing an element moves no node. -/
theorem growth_leave {e : OpenElement} {outer : List OpenElement} (h : p.opened = e :: outer) :
    p.leave.growth = { p.growth with stack := places p.top outer } := by
  have hleave : p.leave =
      ({ p with opened := outer } : Progress).add (.element e.name e.attributes e.content.reverse) := by
    rw [leave, h]
  have hdocument : p.leave.growth.document = p.growth.document := by
    apply Document.eq_of_toList
    change nodes p.leave.top p.leave.opened = nodes p.top p.opened
    rw [hleave, nodes_add, h]
    rfl
  rw [hleave, growth_add, ← hleave, hdocument]
  rfl

end Nodes

section Added

variable {d : Document} {p : Progress}

/-- A node is put behind all others, and its parent lists it last. -/
theorem toList_addChild {parent : NodeId} {node : Node} (h : parent < d.size) :
    (d.addChild parent node).nodes.toList =
      d.nodes.toList.modify parent (·.withChild d.size) ++ [node] := by
  rw [Document.addChild, Array.toList_modify, Array.toList_push, modify_append_of_lt]
  exact h

/-- Attributes that are added one after another come behind all nodes, and their numbers behind those of
the attributes that their element has. -/
theorem toList_addAttributes (attributes : List Attribute) {before behind : List Node} {element : Node}
    (h : d.nodes.toList = before ++ element :: behind) :
    (attributes.foldl (·.addAttribute before.length) d).nodes.toList =
      before ++ { element with
          attributes := element.attributes ++ List.range' d.size attributes.length } ::
        (behind ++ attributes.map (attributeNode before.length)) := by
  induction attributes generalizing d behind element with
  | nil => simpa using h
  | cons a rest ih =>
    have hone : (d.addAttribute before.length a).nodes.toList =
        before ++ element.withAttribute d.size :: (behind ++ [attributeNode before.length a]) := by
      rw [Document.addAttribute, Array.toList_modify, Array.toList_push, h, List.append_assoc,
        List.cons_append, modify_append_length, List.modify_zero_cons]
    have hsize : (d.addAttribute before.length a).size = d.size + 1 := by
      rw [Document.size, Document.addAttribute, Array.size_modify, Array.size_push]
      rfl
    rw [List.foldl_cons, ih hone, hsize, Node.withAttribute]
    simp [List.range'_succ]

/-- A text is added to the document as it is to what has been read. -/
theorem addChild_text (p : Progress) (s : String) :
    p.growth.document.addChild (place p.top p.opened)
        ⟨.text, "", s, some (place p.top p.opened), [], []⟩ = (p.add (.text s)).growth.document := by
  apply Document.eq_of_toList
  rw [toList_addChild (by rw [size_growth]; exact place_lt_count _ _), size_growth]
  exact (nodes_add p (.text s)).symm

/-- An element is added to the document, and its attributes after it, as it is to what has been read. -/
theorem addChild_element (p : Progress) (name : String) (attributes : List Attribute) :
    attributes.foldl (·.addAttribute p.growth.document.size)
        (p.growth.document.addChild (place p.top p.opened)
          ⟨.element, name, "", some (place p.top p.opened), [], []⟩) =
      (p.add (.element name attributes [])).growth.document := by
  let before := (nodes p.top p.opened).modify (place p.top p.opened) (·.withChild (count p.top p.opened))
  have hlength : before.length = p.growth.document.size := by
    rw [length_nodes_withChild, size_growth]
  have hchild : (p.growth.document.addChild (place p.top p.opened)
      ⟨.element, name, "", some (place p.top p.opened), [], []⟩).nodes.toList =
        before ++ [⟨.element, name, "", some (place p.top p.opened), [], []⟩] := by
    rw [toList_addChild (by rw [size_growth]; exact place_lt_count _ _), size_growth]
    rfl
  have hsize : (p.growth.document.addChild (place p.top p.opened)
      ⟨.element, name, "", some (place p.top p.opened), [], []⟩).size = count p.top p.opened + 1 := by
    rw [Document.size, Document.addChild, Array.size_modify, Array.size_push]
    exact congrArg (· + 1) (size_growth p)
  apply Document.eq_of_toList
  rw [← hlength, toList_addAttributes attributes hchild, hsize, hlength, size_growth]
  refine Eq.trans ?_ (nodes_add p (.element name attributes [])).symm
  simp [before, Content.nodes, numbers, layOut]

theorem place_eq_root_iff {top : List Content} {opened : List OpenElement} :
    place top opened = Document.root ↔ opened = [] := by
  cases opened with
  | nil => exact iff_of_true rfl rfl
  | cons e outer =>
    have hpos : 0 < count top outer := Nat.lt_of_le_of_lt (Nat.zero_le _) (place_lt_count top outer)
    exact iff_of_false (Nat.ne_of_gt hpos) (List.cons_ne_nil e outer)

/-- Outside of all elements, there is a document element as soon as the root has content. -/
theorem isSome_documentElement?_growth (h : p.opened = []) :
    p.growth.document.documentElement?.isSome = !p.top.isEmpty := by
  have hchildren : p.growth.document.children Document.root = numbers 1 p.top.reverse := by
    rw [Document.children, Document.node?, growth, h]
    rfl
  rw [Document.documentElement?, hchildren]
  cases htop : p.top.reverse with
  | nil => rw [List.reverse_eq_nil_iff.mp htop]; rfl
  | cons c rest =>
    have hne : p.top ≠ [] := fun hnil => by rw [hnil] at htop; cases htop
    simp [numbers, hne]

end Added

section Steps

variable {p : Progress}

/-- Text that has been gathered is pushed when it is flushed, unless it is blank. -/
theorem flush_growth (p : Progress) : p.growth.flush = p.flush.map growth := by
  rw [Growth.flush, flush]
  change (if p.run.all isBlank = true then _ else _) = _
  split
  · rfl
  · rw [current_growth]
    by_cases hopened : p.opened = []
    · rw [if_pos (place_eq_root_iff.mpr hopened), if_pos (by rw [hopened]; rfl)]
      rfl
    · rw [if_neg (mt place_eq_root_iff.mp hopened), if_neg (by simpa using hopened)]
      change _ = Except.ok (({ p with run := [] } : Progress).add (.text (String.ofList p.run))).growth
      rw [growth_add, ← addChild_text]
      rfl

/-- An element begins without content, in the document as in what has been read. -/
theorem addElement_growth (p : Progress) (tag : List Char) :
    p.growth.addElement tag =
      (p.enter tag).map fun (name, attributes) => (p.add (.element name attributes [])).growth := by
  have hsecond : (p.growth.current = Document.root ∧ p.growth.document.documentElement?.isSome) ↔
      (p.opened.isEmpty && !p.top.isEmpty) = true := by
    rw [current_growth, place_eq_root_iff, Bool.and_eq_true, List.isEmpty_iff]
    exact and_congr_right fun h => by rw [isSome_documentElement?_growth h]
  rw [Growth.addElement, enter]
  by_cases h : (p.opened.isEmpty && !p.top.isEmpty) = true
  · rw [if_pos (hsecond.mpr h), if_pos h]
    rfl
  · rw [if_neg (mt hsecond.mp h), if_neg h]
    cases attributesOf tag with
    | error fault => rfl
    | ok attributes =>
      have hdocument := addChild_element p (String.ofList (tagName tag)) attributes
      rw [← current_growth] at hdocument
      change Except.ok _ = Except.ok (p.add (.element (String.ofList (tagName tag)) attributes [])).growth
      rw [growth_add, ← hdocument]

/-- An end tag is compared with the name that the innermost open element has as a node. -/
theorem name_growth {e : OpenElement} {outer : List OpenElement} (h : p.opened = e :: outer) :
    p.growth.document.name (count p.top outer) = e.name := by
  have hlength := length_nodes_withChild p.top outer (count p.top outer)
  rw [Document.name, Document.node?, growth, h, nodes, List.getElem?_toArray,
    List.getElem?_append_right (Nat.le_of_eq hlength), hlength, Nat.sub_self]
  rfl

/-- The end of a run leaves the same elements open. -/
theorem exists_opened_of_flush {q : Progress} {e : OpenElement} {outer : List OpenElement}
    (h : p.flush = .ok q) (hopened : p.opened = e :: outer) :
    ∃ inner, q.opened = inner :: outer ∧ q.top = p.top := by
  obtain ⟨opened, top, run⟩ := p
  cases hopened
  rw [flush] at h
  split at h
  · cases h
    exact ⟨e, rfl, rfl⟩
  · rw [if_neg (by simp)] at h
    cases h
    exact ⟨_, rfl, rfl⟩

theorem opened_of_flush {q : Progress} (h : p.flush = .ok q) (hopened : p.opened = []) :
    q.opened = [] := by
  rw [flush] at h
  split at h
  · cases h
    exact hopened
  · rw [if_pos (by simp [hopened])] at h
    cases h

/-- A growing document takes each piece of markup as the reading of a tree does. -/
theorem step_growth (p : Progress) (t : Token) : p.growth.step t = (p.step t).map growth := by
  cases t with
  | aside => rfl
  | text s => rfl
  | reference name =>
    rw [Growth.step, step]
    cases resolveInText name <;> rfl
  | startTag tag =>
    rw [Growth.step, step, flush_growth]
    cases p.flush with
    | error fault => rfl
    | ok q =>
      change (q.growth.addElement tag >>= _) = Except.map growth (q.enter tag >>= _)
      rw [addElement_growth]
      cases q.enter tag with
      | error fault => rfl
      | ok found =>
        -- An element that has been opened holds as many nodes as one that is closed at once.
        obtain ⟨name, attributes⟩ := found
        let opened : Progress := { q with opened := ⟨name, attributes, []⟩ :: q.opened }
        have hleave : (q.add (.element name attributes [])).growth =
            { opened.growth with stack := places q.top q.opened } := growth_leave (p := opened) rfl
        change Except.ok { (q.add (.element name attributes [])).growth with
          stack := q.growth.document.size :: q.growth.stack } = Except.ok opened.growth
        rw [hleave, size_growth]
        rfl
  | emptyTag tag =>
    rw [Growth.step, step, flush_growth]
    cases p.flush with
    | error fault => rfl
    | ok q =>
      change q.growth.addElement tag = Except.map growth (q.enter tag >>= _)
      rw [addElement_growth]
      cases q.enter tag <;> rfl
  | endTag name =>
    rw [Growth.step, step]
    cases hopened : p.opened with
    | nil =>
      rw [stack_growth_nil hopened]
      rfl
    | cons e outer =>
      obtain ⟨others, hstack, hplaces⟩ := exists_stack_growth hopened
      rw [hstack]
      dsimp only
      rw [name_growth hopened]
      split
      · rw [flush_growth]
        cases hflush : p.flush with
        | error fault => rfl
        | ok q =>
          obtain ⟨inner, hinner, htop⟩ := exists_opened_of_flush hflush hopened
          change Except.ok { q.growth with stack := place p.top outer :: others } =
            Except.ok q.leave.growth
          rw [growth_leave hinner, htop, hplaces]
      · rfl

/-- Reading piece by piece keeps the document and what has been read together. -/
theorem steps_growth (p : Progress) (pieces : List Token) :
    p.growth.steps pieces = (p.steps pieces).map growth := by
  induction pieces generalizing p with
  | nil => rfl
  | cons t rest ih =>
    rw [Growth.steps, steps, step_growth]
    cases p.step t with
    | error fault => rfl
    | ok q => exact ih q

/-- At the end the document is laid out in full. -/
theorem finish_growth (p : Progress) : p.growth.finish = p.finish.map Document.ofContent := by
  rw [Growth.finish, finish]
  cases hopened : p.opened with
  | nil =>
    rw [stack_growth_nil hopened]
    dsimp only
    rw [flush_growth]
    cases hflush : p.flush with
    | error fault => rfl
    | ok q =>
      have hq : q.opened = [] := opened_of_flush hflush hopened
      change Except.ok q.growth.document = Except.ok (Document.ofContent q.top.reverse)
      rw [growth, hq]
      rfl
  | cons e outer =>
    obtain ⟨others, hstack, -⟩ := exists_stack_growth hopened
    rw [hstack]
    dsimp only
    rw [name_growth hopened]
    rfl

end Steps

end Progress

/-- A document that grows while it is read ends up as the layout of its tree, and fails where the reading
of the tree fails. -/
theorem Document.grow_eq_parse (s : String) : Document.grow s = Document.parse s := by
  rw [Document.grow, Document.parse, readContent]
  generalize tokens (withoutMark s.toList) = read
  obtain ⟨pieces, fault⟩ := read
  have hstart : Growth.start = Progress.start.growth := rfl
  change (Growth.start.steps pieces >>= _) = (assemble pieces fault).map Document.ofContent
  rw [assemble, hstart, Progress.steps_growth]
  cases Progress.start.steps pieces with
  | error fault => rfl
  | ok p =>
    cases fault with
    | some fault => rfl
    | none => exact p.finish_growth

end ComputedField.Markup
