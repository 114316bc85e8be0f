import ComputedField.Decimal.Digits
import ComputedField.Text.Blank

/-!
# Identifiers

Fields and entries are known by positive numbers of 32 bits. Zero is refused where a number or a
text is given; what a store hands back is taken as it is.
-/

namespace ComputedField

inductive Subject where
  | field
  | entry
  deriving DecidableEq, Repr

structure Identifier (s : Subject) where
  number : UInt32
  deriving DecidableEq, Repr

abbrev FieldId := Identifier .field

abbrev EntryId := Identifier .entry

/-- A text that names nothing. -/
structure InvalidId where
  text : String
  deriving DecidableEq, Repr

def InvalidId.message (e : InvalidId) : String :=
  "invalid identifier: " ++ e.text ++ " (must be a positive integer)"

namespace Identifier

variable {s : Subject}

def toNat (i : Identifier s) : Nat := i.number.toNat

def shown (i : Identifier s) : String := toString i.toNat

/-- An identifier as it was stored. -/
def stored? (n : Nat) : Option (Identifier s) :=
  if n < UInt32.size then some ⟨n.toUInt32⟩ else none

def ofNat (n : Nat) : Except InvalidId (Identifier s) :=
  match stored? n with
  | some i => if n = 0 then .error ⟨toString n⟩ else .ok i
  | none => .error ⟨toString n⟩

/-- Reads digits between blanks, with or without a plus sign. -/
def ofText (text : String) : Except InvalidId (Identifier s) :=
  match Decimal.signedNatural? .decimal (Text.trim text.toList) with
  | some n => if n < UInt32.size then ofNat n else .error ⟨text⟩
  | none => .error ⟨text⟩

theorem toNat_inj {i j : Identifier s} (h : i.toNat = j.toNat) : i = j := by
  cases i
  cases j
  simp only [toNat, UInt32.toNat_inj] at h
  rw [h]

end Identifier

end ComputedField
