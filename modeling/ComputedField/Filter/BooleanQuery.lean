import ComputedField.Text.AnyCase
import ComputedField.Text.Blank
import ComputedField.Text.Word

/-!
# Boolean queries

A full-text query marks the terms that are wanted with `+` and those that are not with `-`. Here
`and` and `not` between words become such signs, at the edges of the query they vanish, and a query
that begins with `not` begins with `-`. Blanks around signs are dropped.
-/

namespace ComputedField.Filter

open Text

inductive Connector where
  | and
  | not
  deriving DecidableEq, Repr

def Connector.word : Connector → List Char
  | .and => ['a', 'n', 'd']
  | .not => ['n', 'o', 't']

def Connector.sign : Connector → Char
  | .and => '+'
  | .not => '-'

def isGap (c : Char) : Bool := !isWord c

/-- Puts the sign of a connector for each one between two gaps; a gap serves one connector only. -/
def replaceInner (k : Connector) : List Char → List Char
  | c :: x :: y :: z :: d :: rest =>
    if isGap c && isInAnyCase k.word [x, y, z] && isGap d then
      c :: k.sign :: d :: replaceInner k rest
    else c :: replaceInner k (x :: y :: z :: d :: rest)
  | s => s

/-- Drops a connector behind the last gap. -/
def dropLast (k : Connector) : List Char → List Char
  | [] => []
  | [c, x, y, z] => if isGap c && isInAnyCase k.word [x, y, z] then [c] else [c, x, y, z]
  | c :: rest => c :: dropLast k rest

/-- Whether a text begins with a connector and a gap. -/
def beginsWith (k : Connector) : List Char → Bool
  | x :: y :: z :: d :: _ => isInAnyCase k.word [x, y, z] && isGap d
  | _ => false

/-- Drops a connector at the front, and one at the end unless they share their gap. -/
def dropEdges (k : Connector) : List Char → List Char
  | x :: y :: z :: d :: rest =>
    if isInAnyCase k.word [x, y, z] && isGap d then d :: dropLast k rest
    else dropLast k (x :: y :: z :: d :: rest)
  | s => dropLast k s

def isSign (c : Char) : Bool := c == '+' || c == '-'

/-- Drops blanks next to signs; `afterSign` tells that a sign stands before. -/
def tighten (afterSign : Bool) : List Char → List Char
  | [] => []
  | c :: rest =>
    if isBlank c then
      if afterSign || (trimLeft rest).head?.any isSign then tighten afterSign rest
      else c :: tighten false rest
    else c :: tighten (isSign c) rest

/-- The terms of a trimmed query, with signs for the connectors. -/
def signed (s : List Char) : List Char :=
  dropEdges .not (replaceInner .not (dropEdges .and (replaceInner .and s)))

def leadingSign (s : List Char) : Char := if beginsWith .not s then '-' else '+'

/-- The query behind a natural wording, if any term is left in it. -/
def booleanQuery? (text : String) : Option String :=
  let s := trim text.toList
  let query := trim (tighten false (leadingSign s :: signed s))
  if s.isEmpty || query.all isSign then none else some (String.ofList query)

end ComputedField.Filter
