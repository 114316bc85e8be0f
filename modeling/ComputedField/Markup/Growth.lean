import ComputedField.Markup.Reader

/-!
# Documents that grow

A document can be built up while its markup is read: every node takes the next number as soon as it is
met, and becomes a child of the innermost open element. Of the open elements only the numbers are kept.
-/

namespace ComputedField.Markup

open Text

def Node.withChild (node : Node) (id : NodeId) : Node :=
  { node with children := node.children ++ [id] }

def Node.withAttribute (node : Node) (id : NodeId) : Node :=
  { node with attributes := node.attributes ++ [id] }

namespace Document

/-- Adds a node with the next number, and that number to the children of its parent. -/
def addChild (d : Document) (parent : NodeId) (node : Node) : Document where
  nodes := (d.nodes.push node).modify parent (·.withChild d.size)

def addAttribute (d : Document) (owner : NodeId) (a : Attribute) : Document where
  nodes := (d.nodes.push (attributeNode owner a)).modify owner (·.withAttribute d.size)

end Document

/-- The document so far, its open elements from the innermost outwards to the root, and the run of
characters since the last tag. -/
structure Growth where
  document : Document
  stack : List NodeId
  run : List Char
  deriving Repr

namespace Growth

def start : Growth := ⟨.empty, [Document.root], []⟩

/-- The innermost open element, or the root. -/
def current (g : Growth) : NodeId := g.stack.headD Document.root

/-- Ends the run of characters. -/
def flush (g : Growth) : Except Error Growth :=
  let ended := { g with run := [] }
  if g.run.all isBlank then .ok ended
  else if g.current = Document.root then .error .strayText
  else
    let text : Node := ⟨.text, "", String.ofList g.run, some g.current, [], []⟩
    .ok { ended with document := g.document.addChild g.current text }

/-- Adds the element of a tag, and after it one attribute after another. -/
def addElement (g : Growth) (tag : List Char) : Except Error Growth :=
  if g.current = Document.root ∧ g.document.documentElement?.isSome then .error .secondElement
  else (attributesOf tag).map fun attributes =>
    -- A fault in an attribute ends the reading, so that nothing need be added before it is met.
    let element : Node := ⟨.element, String.ofList (tagName tag), "", some g.current, [], []⟩
    let document := g.document.addChild g.current element
    { g with document := attributes.foldl (·.addAttribute g.document.size) document }

def step (g : Growth) : Token → Except Error Growth
  | .aside => .ok g
  | .text s => .ok { g with run := g.run ++ s }
  | .reference name => do
    let c ← resolveInText name
    return { g with run := g.run ++ [c] }
  | .startTag tag => do
    let g ← g.flush
    let grown ← g.addElement tag
    return { grown with stack := g.document.size :: g.stack }
  | .emptyTag tag => do
    let g ← g.flush
    g.addElement tag
  | .endTag name =>
    match g.stack with
    | id :: outer :: others =>
      if (g.document.name id).toList = name then g.flush.map ({ · with stack := outer :: others })
      else .error (.markup .endOfAnother)
    | _ => .error (.markup .endWithoutStart)

def steps (g : Growth) : List Token → Except Error Growth
  | [] => .ok g
  | t :: rest => do (← g.step t).steps rest

/-- The document, when there is nothing more to read. -/
def finish (g : Growth) : Except Error Document :=
  match g.stack with
  | id :: _ :: _ => .error (.unclosedElement (g.document.name id))
  | _ => g.flush.map (·.document)

end Growth

/-- Reads a document that grows with every piece of its markup. -/
def Document.grow (s : String) : Except Error Document := do
  let (pieces, fault) := tokens (withoutMark s.toList)
  let g ← Growth.start.steps pieces
  match fault with
  | some fault => .error (.markup fault)
  | none => g.finish

end ComputedField.Markup
