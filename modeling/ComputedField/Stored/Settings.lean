import ComputedField.Config
import ComputedField.Field.Settings
import ComputedField.Record.Basic
import ComputedField.Stored.Value

/-!
# Reading and writing stored settings

Every member must be there unless it is said to have a value of its own when missing; members that
have no meaning are ignored.
-/

namespace ComputedField

namespace Config

def memberNames : List String := ["logLevel", "handleMaxLength", "tablePrefix", "entryAlias"]

def ofStored? (v : Stored) : Option Config := do
  match ← v.members? memberNames with
  | [some level, some length, some tables, some entries] =>
    return ⟨← level.text?, ← length.below? lengthBound, ← tables.text?, ← entries.text?⟩
  | _ => none

def toStored (c : Config) : Stored :=
  .object [("logLevel", .text c.logLevel), ("handleMaxLength", .natural c.handleMaxLength),
    ("tablePrefix", .text c.tablePrefix), ("entryAlias", .text c.entryAlias)]

end Config

namespace Record

def memberNames : List String := ["handle", "value", "value_formatted"]

/-- A missing handle is none. -/
def ofStored? (v : Stored) : Option Record := do
  match ← v.members? memberNames with
  | [handle, some value, some formatted] =>
    return ⟨← (handle.getD .null).optionalText?, ← value.text?, ← formatted.text?⟩
  | _ => none

def toStored (r : Record) : Stored :=
  .object [("handle", .ofOptionalText r.handle), ("value", .text r.value),
    ("value_formatted", .text r.formatted)]

end Record

namespace ExportMode

def toStored : ExportMode → Stored
  | .value => .text "Value"
  | .formatted => .text "Formatted"

end ExportMode

namespace Format.Selection

def ofStored? : Stored → Option Selection
  | .text "none" => some .none
  | .object [("none", .null)] => some .none
  | .object [("named", .text name)] => some (.named name)
  | _ => Option.none

def toStored : Selection → Stored
  | .none => .text "none"
  | .named name => .object [("named", .text name)]

end Format.Selection

namespace Settings

def memberNames : List String :=
  ["fieldId", "elementName", "expression", "formatter", "xslt", "fetchAssociatedCounts"]

/-- Without their members no formatter is selected, there is no stylesheet, and nothing is
counted. -/
def ofStored? (v : Stored) : Option Settings := do
  match ← v.members? memberNames with
  | [some field, some element, some expression, formatter, stylesheet, counts] =>
    return {
      field := ← Identifier.stored? (← field.below? UInt32.size)
      element := ← element.text?
      expression := ← expression.text?
      formatter := ← Format.Selection.ofStored? (formatter.getD (.text "none"))
      stylesheet := ← (stylesheet.getD .null).optionalText?
      counts := ← (counts.getD (.truth false)).truth? }
  | _ => none

def toStored (s : Settings) : Stored :=
  .object [("fieldId", .natural s.field.toNat), ("elementName", .text s.element),
    ("expression", .text s.expression), ("formatter", s.formatter.toStored),
    ("xslt", .ofOptionalText s.stylesheet), ("fetchAssociatedCounts", .truth s.counts)]

end Settings

end ComputedField
