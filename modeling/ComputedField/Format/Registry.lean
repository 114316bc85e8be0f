import ComputedField.Format.Ampersand
import ComputedField.Format.Selection
import ComputedField.Markup.Reference
import ComputedField.Text.Quoted

/-!
# Formatters

A formatter turns a text into markup, or says why it cannot. Formatters are registered by name; the
last one registered under a name is found. What a formatter makes has its bare ampersands escaped,
and where nothing is made the text itself is escaped as a whole.
-/

namespace ComputedField.Format

abbrev Formatter := String → Except String String

/-- Formatters by name, each name once. -/
structure Registry where
  entries : List (String × Formatter)

inductive Error where
  | unknownFormatter (name : String)
  /-- A formatter failed for the given reason. -/
  | failed (name : String) (reason : String)
  deriving DecidableEq, Repr

def Error.message : Error → String
  | .unknownFormatter name => "unknown formatter: " ++ name
  | .failed name _ => "formatter '" ++ name ++ "' failed"

namespace Registry

def empty : Registry := ⟨[]⟩

def register (r : Registry) (name : String) (f : Formatter) : Registry :=
  ⟨(name, f) :: r.entries.filter (·.1 != name)⟩

def find? (r : Registry) (name : String) : Option Formatter := r.entries.lookup name

/-- The registered names in order. -/
def names (r : Registry) : List String := (r.entries.map (·.1)).mergeSort (· ≤ ·)

/-- The registry as a diagnostic text. -/
def shown (r : Registry) : String :=
  "FormatterRegistry \x7b formatters: ["
    ++ ", ".intercalate (r.names.map Text.quote) ++ "] \x7d"

/-- What the selected formatter makes of a text, if one is selected. -/
def format (r : Registry) (selection : Selection) (text : String) :
    Except Error (Option String) :=
  match selection with
  | .none => .ok none
  | .named name =>
    match r.find? name with
    | none => .error (.unknownFormatter name)
    | some f =>
      match f text with
      | .error reason => .error (.failed name reason)
      | .ok made => .ok (some (escapeAmpersands made))

/-- What the selected formatter makes of a text, or the escaped text if that is nothing. -/
def formatOrEscape (r : Registry) (selection : Selection) (text : String) :
    Except Error String :=
  (r.format selection text).map fun
    | some made => if made.isEmpty then Markup.escape text else made
    | none => Markup.escape text

end Registry

end ComputedField.Format
