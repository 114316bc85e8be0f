import ComputedField.Query.Token
import ComputedField.Query.Value

/-!
# What is wrong with a query

The reasons why a text is no query, and the one reason why a query has no value: something else
stands where nodes are needed.
-/

namespace ComputedField.Query

/-- The number of levels that a query may nest. -/
def maxDepth : Nat := 128

inductive Expected where
  | closeParen
  | closeBracket
  | theEnd
  | nodeTest
  | expression
  deriving DecidableEq, Repr

def Expected.shown : Expected → String
  | .closeParen => "')'"
  | .closeBracket => "']'"
  | .theEnd => "end of expression"
  | .nodeTest => "node test"
  | .expression => "expression"

inductive Unsupported where
  | variables
  | nodeType (name : String)
  deriving DecidableEq, Repr

/-- Where only nodes will do. -/
inductive NodesPlace where
  | union
  | filter
  | name
  | count
  | sum
  deriving DecidableEq, Repr

def NodesPlace.shown : NodesPlace → String
  | .union => "|"
  | .filter => "a filter expression"
  | .name => "name()"
  | .count => "count()"
  | .sum => "sum()"

inductive Error where
  /-- A character that begins no token, at an offset counted in bytes. -/
  | unexpectedChar (c : Char) (offset : Nat)
  | unterminatedLiteral
  /-- Without a token, the query has ended. -/
  | unexpectedToken (expected : Expected) (found : Option Token)
  | unknownFunction (name : String)
  | unknownAxis (name : String)
  | wrongArity (f : Function) (found : Nat)
  | unsupported (feature : Unsupported)
  | tooDeep
  | nodesRequired (place : NodesPlace) (got : Atom)
  deriving DecidableEq, Repr

def Arity.shown (a : Arity) : String :=
  match a.most with
  | none => "at least " ++ toString a.least
  | some most =>
    if most = a.least then toString most else toString a.least ++ " to " ++ toString most

def Unsupported.shown : Unsupported → String
  | .variables => "variable references"
  | .nodeType name => "node type test " ++ name ++ "()"

def Error.message : Error → String
  | .unexpectedChar c offset =>
    "Unexpected character '" ++ c.toString ++ "' at offset " ++ toString offset
  | .unterminatedLiteral => "Unterminated string literal"
  | .unexpectedToken expected found =>
    "Unexpected token: expected " ++ expected.shown ++ ", found "
      ++ (found.map Token.shown).getD "EOF"
  | .unknownFunction name => "Unknown function: " ++ name
  | .unknownAxis name => "Unknown axis: " ++ name
  | .wrongArity f found =>
    "Wrong number of arguments for " ++ f.spelling ++ "(): expected " ++ f.arity.shown
      ++ ", found " ++ toString found
  | .unsupported feature => "Unsupported feature: " ++ feature.shown
  | .tooDeep => "Query nests deeper than " ++ toString maxDepth ++ " levels"
  | .nodesRequired place got =>
    "Type mismatch: " ++ place.shown ++ " requires a node-set, got " ++ got.shown

end ComputedField.Query
