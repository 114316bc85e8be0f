import ComputedField.Decimal.Style
import ComputedField.Markup.Document
import ComputedField.Text.Blank
import ComputedField.Text.Quoted

/-!
# Values of queries

A query selects nodes, or yields a text, a number or a truth value. Every value can be turned into
each of the last three; nodes count by the text of the first of them.
-/

namespace ComputedField.Query

open Markup (Document NodeId)

/-- A value that is no selection of nodes. -/
inductive Atom where
  | text (s : String)
  | number (x : Float)
  | truth (b : Bool)
  deriving DecidableEq, Repr

inductive Value where
  | nodes (ns : List NodeId)
  | atom (a : Atom)
  deriving DecidableEq, Repr

def nan : Float := 0.0 / 0.0

def infinity : Float := 1.0 / 0.0

/-- Reads an optional minus sign, digits and at most one point between blanks. -/
def numberOf (s : String) : Float := (Decimal.parse? (Text.trim s.toList)).getD nan

namespace Atom

def toText : Atom → String
  | .text s => s
  | .number x => Decimal.queryStyle.format x
  | .truth b => toString b

def toNumber : Atom → Float
  | .text s => numberOf s
  | .number x => x
  | .truth b => if b then 1.0 else 0.0

def toTruth : Atom → Bool
  | .text s => !s.isEmpty
  | .number x => x != 0.0 && x == x
  | .truth b => b

/-- How a message shows a value. -/
def shown : Atom → String
  | .text s => "String(" ++ Text.quote s ++ ")"
  | .number x => "Number(" ++ Decimal.shownStyle.format x ++ ")"
  | .truth b => "Boolean(" ++ toString b ++ ")"

end Atom

namespace Value

variable (d : Document)

/-- The text of the first of some nodes. -/
def firstText (ns : List NodeId) : String := (ns.head?.map d.stringValue).getD ""

def toText : Value → String
  | .nodes ns => firstText d ns
  | .atom a => a.toText

def toNumber : Value → Float
  | .nodes ns => numberOf (firstText d ns)
  | .atom a => a.toNumber

def toTruth : Value → Bool
  | .nodes ns => !ns.isEmpty
  | .atom a => a.toTruth

end Value

end ComputedField.Query
