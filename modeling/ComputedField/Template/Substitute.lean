import ComputedField.Template.Anchor
import ComputedField.Template.Placeholder
import ComputedField.Text.Blank

/-!
# Filling in templates

Every placeholder gives way to the text that its query yields. Whoever answers the queries is asked
first for the name of the document element and then once for each distinct placeholder; without
placeholders nothing is asked. A query without an answer counts as empty, and what an answer says is
never taken for a placeholder.
-/

namespace ComputedField.Template

open Text

/-- Answers a query with a text, or not at all. -/
abbrev Ask (m : Type → Type) := String → m (Option String)

variable {m : Type → Type} [Monad m]

def askTrimmed (ask : Ask m) (query : String) : m String := do
  return trimmed ((← ask query).getD "")

def rootName (ask : Ask m) : m String := askTrimmed ask "name(/*)"

/-- The text of a path. -/
def resolve (ask : Ask m) (path : String) : m String := askTrimmed ask ("string(" ++ path ++ ")")

/-- The query behind a placeholder. -/
def pathOf (root : String) (inner : List Char) : String :=
  String.ofList (anchor root.toList inner)

/-- The texts of some placeholders, with what stands inside each. -/
def resolveAll (ask : Ask m) (root : String) :
    List (List Char) → m (List (List Char × String))
  | [] => pure []
  | inner :: rest => do
    let text ← resolve ask (pathOf root inner)
    let others ← resolveAll ask root rest
    return (inner, text) :: others

def Piece.fill (texts : List (List Char × String)) : Piece → List Char
  | .plain c => [c]
  | .placeholder inner => ((texts.lookup inner).getD "").toList

def substitute (ask : Ask m) (template : String) : m String := do
  let ps := pieces template.toList
  match distinctInners ps with
  | [] => return template
  | inners =>
    let root ← rootName ask
    let texts ← resolveAll ask root inners
    return String.ofList (ps.flatMap (·.fill texts))

end ComputedField.Template
