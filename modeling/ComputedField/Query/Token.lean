import ComputedField.Decimal.Style
import ComputedField.Query.Syntax

/-!
# Words of a query

The tokens that a query consists of, and how messages speak of them.
-/

namespace ComputedField.Query

inductive Token where
  | slash
  | doubleSlash
  | openParen
  | closeParen
  | openBracket
  | closeBracket
  | dot
  | doubleDot
  | at
  | comma
  | doubleColon
  | star
  | operator (op : BinaryOp)
  | name (word : String)
  | literal (s : String)
  | number (x : Float)
  deriving DecidableEq, Repr

/-- Whether an operand must follow, so that what comes next is no operator. -/
def Token.expectsOperand : Token → Bool
  | .operator _ | .slash | .doubleSlash => true
  | .at | .doubleColon | .openParen | .openBracket | .comma => true
  | _ => false

def BinaryOp.shown : BinaryOp → String
  | .or => "or"
  | .and => "and"
  | .arith .div => "div"
  | .arith .mod => "mod"
  | op => "'" ++ op.name ++ "'"

def Token.shown : Token → String
  | .slash => "'/'"
  | .doubleSlash => "'//'"
  | .openParen => "'('"
  | .closeParen => "')'"
  | .openBracket => "'['"
  | .closeBracket => "']'"
  | .dot => "'.'"
  | .doubleDot => "'..'"
  | .at => "'@'"
  | .comma => "','"
  | .doubleColon => "'::'"
  | .star => "'*'"
  | .operator op => op.shown
  | .name word => "name '" ++ word ++ "'"
  | .literal s => "literal \"" ++ s ++ "\""
  | .number x => Decimal.plainStyle.format x

end ComputedField.Query
