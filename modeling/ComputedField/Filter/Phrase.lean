import ComputedField.Decimal.Style
import ComputedField.Filter.Predicate
import ComputedField.Text.AnyCase
import ComputedField.Text.Word

/-!
# Numeric phrases

`less than 10` and its like compare a stored value with a number. The words may be in any case, and
`equal to or` before them lets equal numbers in. A phrase may be recognised and yet say nothing, when
its digits are not those of ASCII.
-/

namespace ComputedField.Filter

open Text

structure Phrase where
  orEqual : Bool
  /-- The relation as it is spelled. -/
  relation : List Char
  number : List Char
  deriving DecidableEq, Repr

def relations : List (List Char) :=
  ["less than".toList, "more than".toList, "equal to".toList]

/-- Digits of any script, with at most one point between two of them. -/
def isNumeral (s : List Char) : Bool :=
  !(s.takeWhile isDecimalDigit).isEmpty &&
    match s.dropWhile isDecimalDigit with
    | [] => true
    | '.' :: fraction => !fraction.isEmpty && fraction.all isDecimalDigit
    | _ => false

def isSignedNumeral : List Char → Bool
  | '-' :: s => isNumeral s
  | s => isNumeral s

/-- The relation at the front, as it is spelled, and what follows it. -/
def relationAt? (s : List Char) : Option (List Char × List Char) :=
  relations.findSome? fun word =>
    (stripFolded? word s).map fun rest => (s.take word.length, rest)

/-- The rest of a phrase from its relation on. -/
def phraseFrom? (orEqual : Bool) (s : List Char) : Option Phrase :=
  match relationAt? s with
  | some (relation, ' ' :: number) =>
    if isSignedNumeral number then some ⟨orEqual, relation, number⟩ else none
  | _ => none

def phrase? (s : List Char) : Option Phrase :=
  match stripFolded? "equal to or ".toList s with
  | some rest => phraseFrom? true rest
  | none => phraseFrom? false s

/-- The comparison that a relation spells; letters beyond ASCII spell equality. -/
def Comparison.ofRelation (relation : List Char) : Comparison :=
  if isInAnyCase "more than".toList relation then .gt
  else if isInAnyCase "less than".toList relation then .lt
  else .eq

def Phrase.comparison (p : Phrase) : Comparison :=
  let op := Comparison.ofRelation p.relation
  if p.orEqual then op.orEqual else op

/-- What a phrase compares a value with, and how. -/
def numericComparison? (token : String) : Option (Comparison × Float) :=
  (phrase? token.toList).bind fun p => (Decimal.parse? p.number).map fun x => (p.comparison, x)

end ComputedField.Filter
