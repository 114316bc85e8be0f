/-!
# Doubles as exact numbers

A finite double is a natural number times a power of two. This is the reading on which decimal text
and exact remainders are computed.
-/

namespace ComputedField.Decimal

inductive Reading where
  | nan
  | infinite (negative : Bool)
  /-- The value `±mantissa * 2 ^ exponent`. -/
  | finite (negative : Bool) (mantissa : Nat) (exponent : Int)
  deriving DecidableEq, Repr

/-- The exponent shared by the smallest doubles and by all that have no hidden bit. -/
def leastExponent : Int := -1074

def hiddenBit : Nat := Nat.pow 2 52

def Reading.of (x : Float) : Reading :=
  let bits := x.toBits.toNat
  let negative := bits / Nat.pow 2 63 == 1
  let biased := bits / hiddenBit % 2048
  let fraction := bits % hiddenBit
  if biased = 2047 then
    if fraction = 0 then .infinite negative else .nan
  else if biased = 0 then .finite negative fraction leastExponent
  else .finite negative (hiddenBit + fraction) (leastExponent + (biased - 1 : Nat))

/-- The double nearest to `±mantissa * 2 ^ exponent`. -/
def nearest (negative : Bool) (mantissa : Nat) (exponent : Int) : Float :=
  let x :=
    if exponent < 0 then
      Float.ofScientific (mantissa * Nat.pow 5 exponent.natAbs) true exponent.natAbs
    else Float.ofScientific (mantissa * Nat.pow 2 exponent.natAbs) false 0
  if negative then -x else x

/-- What is left of `x` after taking away a whole multiple of `y` towards zero; it has the sign
of `x`. -/
def remainder (x y : Float) : Float :=
  match Reading.of x, Reading.of y with
  | .nan, _ | _, .nan | .infinite _, _ => 0.0 / 0.0
  | _, .infinite _ => x
  | .finite negative m p, .finite _ n q =>
    if n = 0 then 0.0 / 0.0
    else
      let e := min p q
      nearest negative ((m * Nat.pow 2 (p - e).natAbs) % (n * Nat.pow 2 (q - e).natAbs)) e

end ComputedField.Decimal
