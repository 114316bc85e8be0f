import ComputedField.Identifier

/-!
# Conditions on stored records

A filter asks for entries by the records of a field. Each time it needs those records it joins them
under a name of its own, and its conditions read the two text columns through that name. Literals
keep their type; how they are written is decided where the whole condition is.
-/

namespace ComputedField.Filter

inductive Column where
  | handle
  | value
  deriving DecidableEq, Repr

def Column.name : Column → String
  | .handle => "handle"
  | .value => "value"

/-- The records of a field, joined under a key. -/
structure Join where
  field : FieldId
  key : Nat
  deriving DecidableEq, Repr

def Join.name (j : Join) : String := "t" ++ j.field.shown ++ "_" ++ toString j.key

theorem Join.toList_name (j : Join) :
    j.name.toList = 't' :: Nat.toDigits 10 j.field.toNat ++ '_' :: Nat.toDigits 10 j.key := by
  simp [Join.name, Identifier.shown]

/-- A column read through a join. -/
structure ColumnRef where
  join : Join
  column : Column
  deriving DecidableEq, Repr

def ColumnRef.name (c : ColumnRef) : String := c.join.name ++ "." ++ c.column.name

inductive Literal where
  | text (s : String)
  | number (x : Float)
  deriving DecidableEq, Repr

inductive Comparison where
  | eq
  | lt
  | le
  | gt
  | ge
  deriving DecidableEq, Repr

def Comparison.symbol : Comparison → String
  | .eq => "="
  | .lt => "<"
  | .le => "<="
  | .gt => ">"
  | .ge => ">="

/-- The comparison that also holds of equal numbers. -/
def Comparison.orEqual : Comparison → Comparison
  | .lt => .le
  | .gt => .ge
  | op => op

/-- Where a text must occur. -/
inductive MatchKind where
  | startsWith
  | endsWith
  | contains
  deriving DecidableEq, Repr

namespace MatchKind

def all : List MatchKind := [.startsWith, .endsWith, .contains]

def name : MatchKind → String
  | .startsWith => "starts-with"
  | .endsWith => "ends-with"
  | .contains => "contains"

def ofName? (name : String) : Option MatchKind := all.find? (·.name == name)

end MatchKind

inductive Predicate where
  | compare (column : ColumnRef) (op : Comparison) (value : Literal)
  | oneOf (column : ColumnRef) (values : List Literal)
  /-- The text occurs in the column where `kind` says, character by character. -/
  | like (column : ColumnRef) (kind : MatchKind) (text : String)
  /-- The terms of a full-text query, wanted after `+` and unwanted after `-`. -/
  | fullText (column : ColumnRef) (query : String)
  | regex (column : ColumnRef) (pattern : String) (negated : Bool)
  | and (items : List Predicate)
  | or (items : List Predicate)
  | not (item : Predicate)
  deriving Repr, Inhabited

def Predicate.negateIf (negate : Bool) (p : Predicate) : Predicate :=
  if negate then .not p else p

/-- Joins, and conditions that must all hold. -/
structure Fragment where
  joins : List Join
  conditions : List Predicate
  deriving Repr

/-- What a filter comes to; one that asks for nothing is skipped. -/
inductive Outcome where
  | applied (f : Fragment)
  | skip
  deriving Repr

/-- Filters put together. The keys of their joins are counted from 1. -/
structure Combined where
  joins : List Join
  conditions : List Predicate
  counter : Nat
  deriving Repr

namespace Combined

def empty : Combined := ⟨[], [], 0⟩

def append (q : Combined) (f : Fragment) : Combined :=
  { q with joins := q.joins ++ f.joins, conditions := q.conditions ++ f.conditions }

def isEmpty (q : Combined) : Bool := q.joins.isEmpty && q.conditions.isEmpty

end Combined

end ComputedField.Filter
