import ComputedField.Markup.Attributes
import ComputedField.Markup.Document
import ComputedField.Text.Blank

/-!
# From pieces of markup to a document

Pieces are taken in order. Text, character data and references gather in one run, which ends at the
next tag; a run of blanks is dropped. A tag opens an element or closes the innermost open one. The
first piece that does not fit ends the reading; a fault in the markup comes after the pieces before
it.
-/

namespace ComputedField.Markup

open Text

/-- An element whose end tag has not been met, with its content so far, last piece first. -/
structure OpenElement where
  name : String
  attributes : List Attribute
  content : List Content
  deriving Repr

/-- What has been read: the open elements from the innermost outwards, the finished content of the
root, last piece first, and the run of characters since the last tag. -/
structure Progress where
  opened : List OpenElement
  top : List Content
  run : List Char
  deriving Repr

namespace Progress

def start : Progress := ⟨[], [], []⟩

/-- Adds finished content to the innermost open element. -/
def add (p : Progress) (c : Content) : Progress :=
  match p.opened with
  | [] => { p with top := c :: p.top }
  | e :: outer => { p with opened := { e with content := c :: e.content } :: outer }

/-- Ends the run of characters. -/
def flush (p : Progress) : Except Error Progress :=
  let ended := { p with run := [] }
  if p.run.all isBlank then .ok ended
  else if p.opened.isEmpty then .error .strayText
  else .ok (ended.add (.text (String.ofList p.run)))

/-- The name and attributes of a tag; the root holds no second element. -/
def enter (p : Progress) (tag : List Char) : Except Error (String × List Attribute) :=
  if p.opened.isEmpty && !p.top.isEmpty then .error .secondElement
  else (attributesOf tag).map fun attributes => (String.ofList (tagName tag), attributes)

/-- Closes the innermost open element. -/
def leave (p : Progress) : Progress :=
  match p.opened with
  | [] => p
  | e :: outer => { p with opened := outer }.add (.element e.name e.attributes e.content.reverse)

def step (p : Progress) : Token → Except Error Progress
  | .aside => .ok p
  | .text s => .ok { p with run := p.run ++ s }
  | .reference name => do
    let c ← resolveInText name
    return { p with run := p.run ++ [c] }
  | .startTag tag => do
    let p ← p.flush
    let (name, attributes) ← p.enter tag
    return { p with opened := ⟨name, attributes, []⟩ :: p.opened }
  | .emptyTag tag => do
    let p ← p.flush
    let (name, attributes) ← p.enter tag
    return p.add (.element name attributes [])
  | .endTag name =>
    match p.opened with
    | [] => .error (.markup .endWithoutStart)
    | e :: _ => if e.name.toList = name then p.flush.map leave else .error (.markup .endOfAnother)

def steps (p : Progress) : List Token → Except Error Progress
  | [] => .ok p
  | t :: rest => do (← p.step t).steps rest

/-- The content of the root, when there is nothing more to read. -/
def finish (p : Progress) : Except Error (List Content) :=
  match p.opened with
  | e :: _ => .error (.unclosedElement e.name)
  | [] => p.flush.map fun p => p.top.reverse

end Progress

/-- Reads the content of the root from pieces of markup and the fault that follows them. -/
def assemble (pieces : List Token) (fault : Option MarkupFault) : Except Error (List Content) := do
  let p ← Progress.start.steps pieces
  match fault with
  | some fault => .error (.markup fault)
  | none => p.finish

/-- A mark of the byte order at the beginning of a text is no part of it. -/
def withoutMark : List Char → List Char
  | '\ufeff' :: rest => rest
  | s => s

def readContent (s : String) : Except Error (List Content) :=
  let (pieces, fault) := tokens (withoutMark s.toList)
  assemble pieces fault

def Document.parse (s : String) : Except Error Document :=
  (readContent s).map Document.ofContent

end ComputedField.Markup
