/-!
# The shortest decimal that reads back

Of the decimals that round to a given double, the one with the fewest digits; of those, the nearest
to the double, and of two equally near the greater. A decimal is looked for on one grid of powers of
ten after another, from coarse to fine, so the first grid that has one settles the number of digits.
-/

namespace ComputedField.Decimal

/-- The number `digits * 10 ^ exponent`. -/
structure Scaled where
  digits : Nat
  exponent : Int
  deriving DecidableEq, Repr

/-- The reals that round to the double `value * 2 ^ exponent`, in the same unit. -/
structure Rounding where
  low : Nat
  value : Nat
  high : Nat
  exponent : Int
  /-- Whether the ends round to the double as well. -/
  closed : Bool

/-- Half a step to either side; below a power of two the step is half as wide. -/
def Rounding.of (mantissa : Nat) (exponent : Int) : Rounding where
  low := if mantissa = Nat.pow 2 52 ∧ exponent > -1074 then 4 * mantissa - 1 else 4 * mantissa - 2
  value := 4 * mantissa
  high := 4 * mantissa + 2
  exponent := exponent - 2
  closed := mantissa % 2 == 0

/-- Whether `d` units lie between the ends, all counted by the common measure `scale`. -/
def Rounding.holds (r : Rounding) (scale unit d : Nat) : Bool :=
  if r.closed then r.low * scale ≤ d * unit && d * unit ≤ r.high * scale
  else r.low * scale < d * unit && d * unit < r.high * scale

/-- The multiple of `10 ^ k` that rounds to the double and is nearest to it, if there is one. -/
def Rounding.onGrid (r : Rounding) (k : Int) : Option Nat :=
  let unit := Nat.pow 10 k.toNat * Nat.pow 2 (-r.exponent).toNat
  let scale := Nat.pow 2 r.exponent.toNat * Nat.pow 10 (-k).toNat
  let below := r.value * scale / unit
  match r.holds scale unit below, r.holds scale unit (below + 1) with
  | true, true =>
    if 2 * (r.value * scale - below * unit) < unit then some below else some (below + 1)
  | true, false => some below
  | false, true => some (below + 1)
  | false, false => none

/-- Looks at `10 ^ k`, `10 ^ (k - 1)`, …, for so many steps, and then takes the exact value. -/
def Rounding.search (r : Rounding) (exact : Scaled) : Nat → Int → Scaled
  | 0, _ => exact
  | steps + 1, k =>
    match r.onGrid k with
    | some d => ⟨d, k⟩
    | none => r.search exact steps (k - 1)

/-- The value `mantissa * 2 ^ exponent` itself, which every power of ten below it can express. -/
def exactly (mantissa : Nat) (exponent : Int) : Scaled :=
  if exponent < 0 then ⟨mantissa * Nat.pow 5 exponent.natAbs, exponent⟩
  else ⟨mantissa * Nat.pow 2 exponent.natAbs, 0⟩

/-- The shortest decimal for a positive double. -/
def shortest (mantissa : Nat) (exponent : Int) : Scaled :=
  let whole := mantissa * Nat.pow 2 exponent.toNat / Nat.pow 2 (-exponent).toNat
  let start := (Nat.toDigits 10 whole).length
  let exact := exactly mantissa exponent
  (Rounding.of mantissa exponent).search exact (start + exact.exponent.natAbs) start

end ComputedField.Decimal
