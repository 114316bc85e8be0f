import ComputedField.Sql.Literal

/-!
# Written conditions

Conditions as text. Groups stand in parentheses, so that only a negation needs some of its own.
-/

namespace ComputedField.Sql

open ComputedField.Filter

def isGroup : Predicate → Bool
  | .and _ | .or _ => true
  | _ => false

/-- A group of written conditions, or the constant that it comes to without any. -/
def group (operator constant : String) (items : List (List Char)) : List Char :=
  if items.isEmpty then constant.toList
  else '(' :: (' ' :: operator.toList ++ [' ']).intercalate items ++ [')']

mutual

def condition : Predicate → List Char
  | .compare column op value =>
    column.name.toList ++ ' ' :: op.symbol.toList ++ ' ' :: literal value
  | .oneOf column values =>
    column.name.toList ++ " IN (".toList ++ [',', ' '].intercalate (values.map literal) ++ [')']
  | .like column kind text =>
    column.name.toList ++ " LIKE ".toList ++ quoted (likePattern kind text.toList)
  | .fullText column query =>
    "MATCH (".toList ++ column.name.toList ++ ") AGAINST (".toList ++ quoted query.toList
      ++ " IN BOOLEAN MODE)".toList
  | .regex column pattern negated =>
    column.name.toList ++ (if negated then " NOT REGEXP " else " REGEXP ").toList
      ++ quoted pattern.toList
  | .and items => group "AND" "TRUE" (conditions items)
  | .or items => group "OR" "FALSE" (conditions items)
  | .not item =>
    if isGroup item then "NOT ".toList ++ condition item
    else "NOT (".toList ++ condition item ++ [')']

def conditions : List Predicate → List (List Char)
  | [] => []
  | p :: rest => condition p :: conditions rest

end

def writeCondition (p : Predicate) : String := String.ofList (condition p)

/-- Conditions to be added to those of a query, one a line. -/
def writeConditions (ps : List Predicate) : String :=
  "\n".intercalate (ps.map fun p => "AND " ++ writeCondition p)

end ComputedField.Sql
