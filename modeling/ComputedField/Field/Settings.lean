import ComputedField.Format.Selection
import ComputedField.Identifier

/-!
# Settings of a field

What a field computes and how it appears, and which of its features a host may use.
-/

namespace ComputedField

structure Settings where
  field : FieldId
  /-- The name of the element that the field is written as. -/
  element : String
  /-- The template that the field's values are made from. -/
  expression : String
  formatter : Format.Selection
  /-- The stylesheet that the host passes the document through. -/
  stylesheet : Option String
  /-- Whether the host counts associated entries. -/
  counts : Bool
  deriving DecidableEq, Repr

inductive Capability where
  | outputGrouping
  | parameterOutput
  | filtering
  | prepopulation
  | sorting
  deriving DecidableEq, Repr

namespace Capability

def all : List Capability :=
  [.outputGrouping, .parameterOutput, .filtering, .prepopulation, .sorting]

def name : Capability → String
  | .outputGrouping => "OutputGrouping"
  | .parameterOutput => "ParameterOutput"
  | .filtering => "Filtering"
  | .prepopulation => "Prepopulation"
  | .sorting => "Sorting"

/-- Whether a field has a capability. -/
def isSupported (c : Capability) : Bool := all.contains c

end Capability

end ComputedField
