import ComputedField.Query.Error
import ComputedField.Text.Search

/-!
# Built-in functions

What each function of the query language yields for evaluated arguments. Several take the node in
question where an argument is missing.
-/

namespace ComputedField.Query

open Markup (Document NodeId)
open Text

/-- The node in question, its place among its fellows, counted from 1, and their number. -/
structure Context where
  node : NodeId
  position : Nat
  size : Nat
  deriving DecidableEq, Repr

def Context.ofRoot : Context := ⟨Document.root, 1, 1⟩

/-- The nodes of a value, where only nodes will do. -/
def Value.asNodes (place : NodesPlace) : Value → Except Error (List NodeId)
  | .nodes ns => .ok ns
  | .atom a => .error (.nodesRequired place a)

/-- The nearest whole number; a half goes up. -/
def round (x : Float) : Float := (x + 0.5).floor

/-- The characters at the positions from `first` on and before `bound`. -/
def between (first bound : Float) (s : List Char) : List Char :=
  (s.zipIdx 1).filterMap fun (c, i) =>
    if first ≤ Float.ofNat i && Float.ofNat i < bound then some c else none

/-- Replaces each character of `source` by its counterpart in `target`, or by nothing. -/
def translate (source target : List Char) (s : List Char) : List Char :=
  s.filterMap fun c =>
    match source.idxOf? c with
    | some i => target[i]?
    | none => some c

/-- What follows the last colon of a name. -/
def localPart (name : List Char) : List Char :=
  (name.reverse.takeWhile (· != ':')).reverse

variable (d : Document)

def textOr (c : Context) : Option Value → String
  | some v => v.toText d
  | none => d.stringValue c.node

def nameOr (c : Context) : Option Value → Except Error String
  | some v => (v.asNodes .name).map fun ns => (ns.head?.map d.name).getD ""
  | none => .ok (d.name c.node)

/-- The two sides of the first occurrence of one text in another. -/
def splitAt? (whole part : Value) : Option (List Char × List Char) :=
  splitOnce? (part.toText d).toList (whole.toText d).toList

def ofTruth (b : Bool) : Except Error Value := .ok (.atom (.truth b))

def ofNumber (x : Float) : Except Error Value := .ok (.atom (.number x))

def ofText (s : String) : Except Error Value := .ok (.atom (.text s))

def Context.call (c : Context) (f : Function) (arguments : List Value) : Except Error Value :=
  match f, arguments with
  | .string, [] | .string, [_] => ofText (textOr d c arguments.head?)
  | .name, [] | .name, [_] => do ofText (← nameOr d c arguments.head?)
  | .localName, [] | .localName, [_] => do
    ofText (String.ofList (localPart (← nameOr d c arguments.head?).toList))
  | .count, [v] => do ofNumber (Float.ofNat (← v.asNodes .count).length)
  | .concat, _ => ofText (String.join (arguments.map (·.toText d)))
  | .normalizeSpace, [] | .normalizeSpace, [_] =>
    ofText (String.ofList (collapse (textOr d c arguments.head?).toList))
  | .contains, [whole, part] => ofTruth (splitAt? d whole part).isSome
  | .startsWith, [whole, part] =>
    ofTruth ((part.toText d).toList.isPrefixOf (whole.toText d).toList)
  | .substring, [whole, first] =>
    ofText (String.ofList
      (between (round (first.toNumber d)) infinity (whole.toText d).toList))
  | .substring, [whole, first, length] =>
    let start := round (first.toNumber d)
    ofText (String.ofList
      (between start (start + round (length.toNumber d)) (whole.toText d).toList))
  | .substringBefore, [whole, part] =>
    ofText (String.ofList ((splitAt? d whole part).map (·.1) |>.getD []))
  | .substringAfter, [whole, part] =>
    ofText (String.ofList ((splitAt? d whole part).map (·.2) |>.getD []))
  | .stringLength, [] | .stringLength, [_] =>
    ofNumber (Float.ofNat (textOr d c arguments.head?).length)
  | .translate, [whole, source, target] =>
    ofText (String.ofList
      (translate (source.toText d).toList (target.toText d).toList (whole.toText d).toList))
  | .sum, [v] => do
    ofNumber ((← v.asNodes .sum).foldl (fun x n => x + numberOf (d.stringValue n)) (-0.0))
  | .number, [] => ofNumber (numberOf (d.stringValue c.node))
  | .number, [v] => ofNumber (v.toNumber d)
  | .boolean, [v] => ofTruth v.toTruth
  | .not, [v] => ofTruth (!v.toTruth)
  | .true, [] => ofTruth true
  | .false, [] => ofTruth false
  | .position, [] => ofNumber (Float.ofNat c.position)
  | .last, [] => ofNumber (Float.ofNat c.size)
  | .floor, [v] => ofNumber (v.toNumber d).floor
  | .ceiling, [v] => ofNumber (v.toNumber d).ceil
  | .round, [v] => ofNumber (round (v.toNumber d))
  | f, _ => .error (.wrongArity f arguments.length)

end ComputedField.Query
