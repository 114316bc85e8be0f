/-!
# Stored settings

The values that configurations, records and settings are kept as between runs.
-/

namespace ComputedField

inductive Stored where
  | null
  | truth (b : Bool)
  | natural (n : Nat)
  /-- A number below zero or with a fraction; nothing that is kept has one. -/
  | otherNumber
  | text (s : String)
  | list (items : List Stored)
  | object (members : List (String × Stored))
  deriving Repr, Inhabited

namespace Stored

/-- The named members of an object. They may also be listed in the order of the names, the last ones
left out. -/
def members? (names : List String) : Stored → Option (List (Option Stored))
  | .object members => some (names.map fun name => members.lookup name)
  | .list items =>
    if items.length ≤ names.length then
      some (items.map some ++ List.replicate (names.length - items.length) none)
    else none
  | _ => none

def text? : Stored → Option String
  | .text s => some s
  | _ => none

def truth? : Stored → Option Bool
  | .truth b => some b
  | _ => none

/-- A natural number below a bound. -/
def below? (bound : Nat) : Stored → Option Nat
  | .natural n => if n < bound then some n else none
  | _ => none

/-- A text, or null where there is none. -/
def optionalText? : Stored → Option (Option String)
  | .null => some none
  | .text s => some (some s)
  | _ => none

def ofOptionalText : Option String → Stored
  | none => .null
  | some s => .text s

end Stored

end ComputedField
