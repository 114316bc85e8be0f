import ComputedField.Markup.Content

/-!
# Documents

A document numbers its nodes in document order: the root is 0, and every element is followed by its
attributes and then by its content. A number is thus a position, and comparing numbers compares
places in the document. `Document.ofContent` lays out a tree; the functions after it read the
layout.
-/

namespace ComputedField.Markup

abbrev NodeId := Nat

inductive NodeKind where
  | root
  | element
  | attribute
  | text
  deriving DecidableEq, Repr

structure Node where
  kind : NodeKind
  /-- The name of an element or attribute. -/
  name : String
  /-- The value of an attribute or text. -/
  value : String
  parent : Option NodeId
  children : List NodeId
  attributes : List NodeId
  deriving DecidableEq, Repr

structure Document where
  nodes : Array Node
  deriving DecidableEq, Repr

/-- The numbers of neighbours of which the first is numbered `start`. -/
def numbers (start : NodeId) : List Content → List NodeId
  | [] => []
  | c :: rest => start :: numbers (start + c.size) rest

def attributeNode (owner : NodeId) (a : Attribute) : Node :=
  ⟨.attribute, a.name, a.value, some owner, [], []⟩

mutual

/-- The nodes of a piece of content that is numbered from `start` on. -/
def Content.nodes (parent start : NodeId) : Content → List Node
  | .text value => [⟨.text, "", value, some parent, [], []⟩]
  | .element name attributes content =>
    let first := start + 1 + attributes.length
    ⟨.element, name, "", some parent, numbers first content,
        List.range' (start + 1) attributes.length⟩
      :: (attributes.map (attributeNode start) ++ layOut start first content)

/-- The nodes of neighbours. -/
def layOut (parent start : NodeId) : List Content → List Node
  | [] => []
  | c :: rest => c.nodes parent start ++ layOut parent (start + c.size) rest

end

namespace Document

def root : NodeId := 0

/-- The document whose root holds the given content. -/
def ofContent (content : List Content) : Document where
  nodes := (⟨.root, "", "", none, numbers 1 content, []⟩ :: layOut root 1 content).toArray

/-- The document of nothing but a root. -/
def empty : Document := ofContent []

variable (d : Document)

def size : Nat := d.nodes.size

def node? (n : NodeId) : Option Node := d.nodes[n]?

def kind? (n : NodeId) : Option NodeKind := (d.node? n).map (·.kind)

def parent? (n : NodeId) : Option NodeId := (d.node? n).bind (·.parent)

def children (n : NodeId) : List NodeId := ((d.node? n).map (·.children)).getD []

def attributes (n : NodeId) : List NodeId := ((d.node? n).map (·.attributes)).getD []

/-- The name of an element or attribute; the root and texts have the empty name. -/
def name (n : NodeId) : String := ((d.node? n).map (·.name)).getD ""

/-- The outermost element. -/
def documentElement? : Option NodeId := (d.children root).head?

def isEmpty : Bool := d.documentElement?.isNone

/-- The elements and texts below a node to the given depth, in document order. -/
def below : Nat → NodeId → List NodeId
  | 0, _ => []
  | depth + 1, n => (d.children n).flatMap fun c => c :: below depth c

/-- The elements and texts below a node, in document order; no path is longer than the document. -/
def descendants (n : NodeId) : List NodeId := d.below d.size n

def text? (n : NodeId) : Option String :=
  (d.node? n).bind fun node => if node.kind = .text then some node.value else none

/-- The text that a node stands for: its own value, or all text below it. -/
def stringValue (n : NodeId) : String :=
  match d.node? n with
  | none => ""
  | some node =>
    match node.kind with
    | .attribute | .text => node.value
    | .root | .element => String.join ((d.descendants n).filterMap d.text?)

end Document

@[simp] theorem layOut_append (parent start : NodeId) (a b : List Content) :
    layOut parent start (a ++ b) = layOut parent start a ++ layOut parent (start + sizes a) b := by
  induction a generalizing start with
  | nil => simp [layOut, sizes]
  | cons c rest ih => simp [layOut, sizes, ih, Nat.add_assoc]

mutual

theorem Content.length_nodes (parent start : NodeId) (c : Content) :
    (c.nodes parent start).length = c.size := by
  cases c with
  | text value => simp [Content.nodes, Content.size]
  | element name attributes content =>
    simp [Content.nodes, Content.size, length_layOut]
    omega

theorem length_layOut (parent start : NodeId) (content : List Content) :
    (layOut parent start content).length = sizes content := by
  cases content with
  | nil => simp [layOut, sizes]
  | cons c rest => simp [layOut, sizes, Content.length_nodes, length_layOut]

end

theorem Document.size_ofContent (content : List Content) :
    (Document.ofContent content).size = 1 + sizes content := by
  simp [Document.size, Document.ofContent, length_layOut]
  omega

end ComputedField.Markup
