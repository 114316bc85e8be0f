import ComputedField.Decimal.Double
import ComputedField.Decimal.Shortest

/-!
# Numbers as text

How a double is written: always with its shortest digits, in one of three styles that differ in the
words for what is not finite, in the sign of zero, in the point of whole numbers, and in the use of
exponents. Beside them stands the reading of digits.
-/

namespace ComputedField.Decimal

structure Style where
  nan : String
  infinity : String
  /-- Whether a negative zero keeps its sign. -/
  signedZero : Bool
  /-- Whether a whole number ends in `.0`. -/
  pointed : Bool
  /-- Whether numbers from `10 ^ 16` on, and those below `10 ^ -4`, have an exponent. -/
  scientific : Bool
  deriving Repr

/-- The style of a path query's conversions to text. -/
def queryStyle : Style := ⟨"NaN", "Infinity", false, false, false⟩

/-- The style of messages and of rendered conditions. -/
def plainStyle : Style := ⟨"NaN", "inf", true, false, false⟩

/-- The style in which a value is shown inside a message. -/
def shownStyle : Style := ⟨"NaN", "inf", true, true, true⟩

/-- All digits at their places, with a point only before a fraction. -/
def positional (d : Scaled) : List Char :=
  let digits := Nat.toDigits 10 d.digits
  if 0 ≤ d.exponent then digits ++ List.replicate d.exponent.natAbs '0'
  else
    let places := d.exponent.natAbs
    if places < digits.length then
      digits.take (digits.length - places) ++ '.' :: digits.drop (digits.length - places)
    else '0' :: '.' :: (List.replicate (places - digits.length) '0' ++ digits)

/-- The power of ten of the leading digit. -/
def magnitude (d : Scaled) : Int := d.exponent + ((Nat.toDigits 10 d.digits).length - 1 : Nat)

/-- The leading digit, the others after a point, and the magnitude after an `e`. -/
def withExponent (d : Scaled) : List Char :=
  let point : List Char → List Char
    | [] => []
    | lead :: [] => [lead]
    | lead :: others => lead :: '.' :: others
  point (Nat.toDigits 10 d.digits) ++ 'e' :: (toString (magnitude d)).toList

def Style.unsigned (s : Style) (d : Scaled) : List Char :=
  if s.scientific && (16 ≤ magnitude d || magnitude d < -4) then withExponent d
  else if s.pointed && 0 ≤ d.exponent then positional d ++ ['.', '0']
  else positional d

def Style.format (s : Style) (x : Float) : String :=
  match Reading.of x with
  | .nan => s.nan
  | .infinite negative => if negative then "-" ++ s.infinity else s.infinity
  | .finite negative 0 _ =>
    (if negative && s.signedZero then "-0" else "0") ++ (if s.pointed then ".0" else "")
  | .finite negative mantissa exponent =>
    let text := String.ofList (s.unsigned (shortest mantissa exponent))
    if negative then "-" ++ text else text

def ofDigits (digits : List Char) : Nat :=
  digits.foldl (fun n c => 10 * n + (c.toNat - '0'.toNat)) 0

/-- The double nearest to a numeral given by the digits before and after its point. -/
def ofNumeral (negative : Bool) (whole fraction : List Char) : Float :=
  let x := Float.ofScientific (ofDigits (whole ++ fraction)) true fraction.length
  if negative then -x else x

/-- Splits a numeral at its point; digits are those of ASCII, there is at most one point, and there
is at least one digit. -/
def splitNumeral? (s : List Char) : Option (List Char × List Char) :=
  let whole := s.takeWhile (·.isDigit)
  match s.dropWhile (·.isDigit) with
  | [] => if whole.isEmpty then none else some (whole, [])
  | '.' :: fraction =>
    if fraction.all (·.isDigit) && !(whole.isEmpty && fraction.isEmpty) then some (whole, fraction)
    else none
  | _ => none

/-- Reads a numeral with an optional minus sign. -/
def parse? (s : List Char) : Option Float :=
  match s with
  | '-' :: digits => (splitNumeral? digits).map fun (whole, fraction) => ofNumeral true whole fraction
  | digits => (splitNumeral? digits).map fun (whole, fraction) => ofNumeral false whole fraction

end ComputedField.Decimal
