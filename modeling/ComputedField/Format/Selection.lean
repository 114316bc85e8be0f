import ComputedField.Text.AnyCase
import ComputedField.Text.Blank

/-!
# Selected formatters

A field may name the formatter that its values go through.
-/

namespace ComputedField.Format

open Text

inductive Selection where
  | none
  | named (name : String)
  deriving DecidableEq, Repr

/-- Reads a name between blanks; no name at all and `none` in any case select nothing. -/
def Selection.ofName (text : String) : Selection :=
  let name := trim text.toList
  if name = [] ∨ isInAnyCase "none".toList name then .none else .named (String.ofList name)

def Selection.shown : Selection → String
  | .none => "none"
  | .named name => name

end ComputedField.Format
