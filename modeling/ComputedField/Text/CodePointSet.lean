/-!
# Sets of code points

A property of characters is kept as the ascending list of the code points at which membership
changes, starting from "not a member". A point belongs to the set exactly when an odd number of
changes lie at or below it.
-/

namespace ComputedField.Text

structure CodePointSet where
  changes : List Nat

namespace CodePointSet

/-- Membership after the given changes; each one at or below `n` turns the answer round. -/
def flips : List Nat → Nat → Bool
  | [], _ => false
  | change :: rest, n => if n < change then false else !flips rest n

def contains (s : CodePointSet) (c : Char) : Bool := flips s.changes c.toNat

end CodePointSet

end ComputedField.Text
