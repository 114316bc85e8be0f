import ComputedField.Text.AnyCase
import ComputedField.Text.Word

/-!
# Bare ampersands

Markup made by others may hold ampersands that begin no reference. Those are escaped; an ampersand
before something with the form of a reference is left alone, whether or not the name is known.
-/

namespace ComputedField.Format

open Text

/-- Two to seven word characters, of which all but the last three are letters. -/
def isEntityName (name : List Char) : Bool :=
  2 ≤ name.length && name.length ≤ 7 && (name.take (name.length - 3)).all isFoldedLetter

def isNumberChar (c : Char) : Bool :=
  c.isDigit || c == 'x' || c == 'X' || ('a' ≤ c && c ≤ 'f') || ('A' ≤ c && c ≤ 'F')

/-- Two to six digits of whatever base, with its mark. -/
def isNumberName (name : List Char) : Bool := 2 ≤ name.length && name.length ≤ 6

/-- Whether an ampersand before the given text begins a reference. -/
def startsReference (s : List Char) : Bool :=
  match s with
  | '#' :: number =>
    isNumberName (number.takeWhile isNumberChar)
      && (number.dropWhile isNumberChar).head? == some ';'
  | _ => isEntityName (s.takeWhile isWord) && (s.dropWhile isWord).head? == some ';'

def escapeAmpersandsIn : List Char → List Char
  | [] => []
  | c :: rest =>
    if c = '&' ∧ startsReference rest = false then "&amp;".toList ++ escapeAmpersandsIn rest
    else c :: escapeAmpersandsIn rest

def escapeAmpersands (s : String) : String := String.ofList (escapeAmpersandsIn s.toList)

end ComputedField.Format
