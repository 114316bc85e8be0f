import ComputedField.Decimal.Digits
import ComputedField.Markup.Error
import ComputedField.Text.Search

/-!
# References

`&name;` stands for one of the five characters that markup reserves, `&#n;` and `&#xn;` for the
character with that number. In an attribute value the number has no sign and is not zero; in text a
plus sign may stand before it, and zero is a character as any other.
-/

namespace ComputedField.Markup

open Text Decimal

inductive Place where
  | text
  | attribute
  deriving DecidableEq, Repr

def entity? (name : List Char) : Option Char :=
  if name = "amp".toList then some '&'
  else if name = "lt".toList then some '<'
  else if name = "gt".toList then some '>'
  else if name = "apos".toList then some '\''
  else if name = "quot".toList then some '"'
  else none

/-- The number in a reference. -/
def Place.number? (place : Place) (radix : Radix) (s : List Char) : Option Nat :=
  match place with
  | .text => signedNatural? radix s
  | .attribute => natural? radix s

/-- The character numbered in a reference, given what follows its `#`. -/
def Place.character? (place : Place) (s : List Char) : Option Char :=
  let code :=
    match s with
    | 'x' :: hex => place.number? .hexadecimal hex
    | _ => place.number? .decimal s
  code.bind fun n =>
    if n.isValidChar ∧ (n = 0 → place = .text) then some (Char.ofNat n) else none

/-- The character that a reference stands for. -/
def Place.resolve? (place : Place) : List Char → Option Char
  | '#' :: number => place.character? number
  | name => entity? name

/-- The character that a reference in text stands for, or what is wrong with the reference. -/
def resolveInText (name : List Char) : Except Error Char :=
  match Place.text.resolve? name with
  | some c => .ok c
  | none =>
    .error (if name.head? = some '#' then .characterReference (String.ofList name)
      else .unknownEntity (String.ofList name))

/-- An attribute value with its references replaced; `name` holds the reference being read, last
character first. -/
def unescapeAfter (name : Option (List Char)) : List Char → Option (List Char)
  | [] => if name.isSome then none else some []
  | c :: rest =>
    match name with
    | none => if c = '&' then unescapeAfter (some []) rest else (unescapeAfter none rest).map (c :: ·)
    | some read =>
      if c = ';' then
        (Place.attribute.resolve? read.reverse).bind fun d => (unescapeAfter none rest).map (d :: ·)
      else if c = '&' then none
      else unescapeAfter (some (c :: read)) rest

def unescape? (s : List Char) : Option (List Char) := unescapeAfter none s

/-- The reference that stands for a character which markup reserves. -/
def escapeChar (c : Char) : List Char :=
  match c with
  | '<' => "&lt;".toList
  | '>' => "&gt;".toList
  | '&' => "&amp;".toList
  | '\'' => "&apos;".toList
  | '"' => "&quot;".toList
  | c => [c]

/-- A text in which no character is taken for markup. -/
def escape (s : String) : String := String.ofList (s.toList.flatMap escapeChar)

end ComputedField.Markup
