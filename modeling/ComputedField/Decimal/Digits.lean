/-!
# Digits

Natural numbers written in digits of ASCII, in decimal or hexadecimal, with at least one digit.
-/

namespace ComputedField.Decimal

def decimalDigit? (c : Char) : Option Nat :=
  if c.isDigit then some (c.toNat - '0'.toNat) else none

def hexDigit? (c : Char) : Option Nat :=
  if c.isDigit then some (c.toNat - '0'.toNat)
  else if 'a' ≤ c ∧ c ≤ 'f' then some (c.toNat - 'a'.toNat + 10)
  else if 'A' ≤ c ∧ c ≤ 'F' then some (c.toNat - 'A'.toNat + 10)
  else none

inductive Radix where
  | decimal
  | hexadecimal
  deriving DecidableEq, Repr

def Radix.base : Radix → Nat
  | .decimal => 10
  | .hexadecimal => 16

def Radix.digit? : Radix → Char → Option Nat
  | .decimal => decimalDigit?
  | .hexadecimal => hexDigit?

/-- Appends digits to the number read so far. -/
def digitsAfter (radix : Radix) : Nat → List Char → Option Nat
  | n, [] => some n
  | n, c :: rest => (radix.digit? c).bind fun d => digitsAfter radix (radix.base * n + d) rest

def natural? (radix : Radix) (s : List Char) : Option Nat :=
  if s.isEmpty then none else digitsAfter radix 0 s

/-- Reads a number that may have a plus sign. -/
def signedNatural? (radix : Radix) : List Char → Option Nat
  | '+' :: rest => natural? radix rest
  | s => natural? radix s

end ComputedField.Decimal
