/-!
# Elements and text

What stands between tags, as a tree: runs of text, and elements with attributes and content of
their own.
-/

namespace ComputedField.Markup

structure Attribute where
  name : String
  value : String
  deriving DecidableEq, Repr

inductive Content where
  | text (value : String)
  | element (name : String) (attributes : List Attribute) (content : List Content)
  deriving BEq, Repr, Inhabited

mutual

/-- How many nodes a piece of content has, attributes included. -/
def Content.size : Content → Nat
  | .text _ => 1
  | .element _ attributes content => 1 + attributes.length + sizes content

def sizes : List Content → Nat
  | [] => 0
  | c :: rest => c.size + sizes rest

end

mutual

/-- The character data of a piece of content, without its markup. -/
def Content.characters : Content → String
  | .text value => value
  | .element _ _ content => charactersOf content

def charactersOf : List Content → String
  | [] => ""
  | c :: rest => c.characters ++ charactersOf rest

end

theorem Content.size_pos (c : Content) : 0 < c.size := by
  cases c with
  | text value => simp [Content.size]
  | element name attributes content =>
    simp only [Content.size]
    omega

end ComputedField.Markup
