/-!
# Records

What is kept of a computed value: a handle, if the value has one, the value as text, and the value
as markup.
-/

namespace ComputedField

structure Record where
  handle : Option String
  value : String
  formatted : String
  deriving DecidableEq, Repr

def Record.empty : Record := ⟨none, "", ""⟩

/-- The part of a record that leaves the library as a value. -/
inductive ExportMode where
  | value
  | formatted
  deriving DecidableEq, Repr

namespace ExportMode

def all : List ExportMode := [.value, .formatted]

def name : ExportMode → String
  | .value => "getValue"
  | .formatted => "getFormatted"

def ofName? (name : String) : Option ExportMode := all.find? (·.name == name)

/-- What is said of a name that is no mode's. -/
def unknownMessage (name : String) : String := "unknown export mode: " ++ name

end ExportMode

def Record.exported (r : Record) : ExportMode → String
  | .value => r.value
  | .formatted => r.formatted

end ComputedField
