import ComputedField.Identifier
import ComputedField.Text.AnyCase

/-!
# Order of entries

Entries come in random order or by the values that a field has for them.
-/

namespace ComputedField.Filter

open Text

inductive Direction where
  | ascending
  | descending
  deriving DecidableEq, Repr

def Direction.keyword : Direction → String
  | .ascending => "ASC"
  | .descending => "DESC"

inductive Order where
  | random
  | byValue (field : FieldId) (direction : Direction)
  deriving DecidableEq, Repr

/-- Reads the wanted order in any case; words that name no order mean an ascending one. -/
def Order.ofText (field : FieldId) (text : String) : Order :=
  let word := trim text.toList
  if isInAnyCase "random".toList word || isInAnyCase "rand".toList word then .random
  else if isInAnyCase "desc".toList word then .byValue field .descending
  else .byValue field .ascending

end ComputedField.Filter
