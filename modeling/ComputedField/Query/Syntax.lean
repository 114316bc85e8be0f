/-!
# Path queries

The expressions of the query language: paths of steps through a document, operators, and calls of
built-in functions. `//` is kept as a step to the node itself and all below it, and `.` and `..` as
steps to the node itself and to its parent.
-/

namespace ComputedField.Query

inductive CompareOp where
  | eq
  | ne
  | lt
  | le
  | gt
  | ge
  deriving DecidableEq, Repr

/-- The operator that says the same of swapped operands. -/
def CompareOp.flip : CompareOp → CompareOp
  | .eq => .eq
  | .ne => .ne
  | .lt => .gt
  | .le => .ge
  | .gt => .lt
  | .ge => .le

def CompareOp.name : CompareOp → String
  | .eq => "="
  | .ne => "!="
  | .lt => "<"
  | .le => "<="
  | .gt => ">"
  | .ge => ">="

theorem CompareOp.flip_flip (op : CompareOp) : op.flip.flip = op := by
  cases op <;> rfl

inductive ArithOp where
  | add
  | sub
  | mul
  | div
  | mod
  deriving DecidableEq, Repr

def ArithOp.name : ArithOp → String
  | .add => "+"
  | .sub => "-"
  | .mul => "*"
  | .div => "div"
  | .mod => "mod"

inductive BinaryOp where
  | or
  | and
  | compare (op : CompareOp)
  | arith (op : ArithOp)
  | union
  deriving DecidableEq, Repr

def BinaryOp.name : BinaryOp → String
  | .or => "or"
  | .and => "and"
  | .compare op => op.name
  | .arith op => op.name
  | .union => "|"

inductive Axis where
  | child
  | descendant
  | descendantOrSelf
  | itself
  | parent
  | ancestor
  | ancestorOrSelf
  | attribute
  | followingSibling
  | precedingSibling
  deriving DecidableEq, Repr

def Axis.all : List Axis :=
  [.child, .descendant, .descendantOrSelf, .itself, .parent, .ancestor, .ancestorOrSelf,
    .attribute, .followingSibling, .precedingSibling]

def Axis.name : Axis → String
  | .child => "child"
  | .descendant => "descendant"
  | .descendantOrSelf => "descendant-or-self"
  | .itself => "self"
  | .parent => "parent"
  | .ancestor => "ancestor"
  | .ancestorOrSelf => "ancestor-or-self"
  | .attribute => "attribute"
  | .followingSibling => "following-sibling"
  | .precedingSibling => "preceding-sibling"

def Axis.ofName? (name : String) : Option Axis := Axis.all.find? (·.name == name)

/-- Whether positions on the axis count backwards through the document. -/
def Axis.isReverse : Axis → Bool
  | .ancestor | .ancestorOrSelf | .precedingSibling | .parent => true
  | _ => false

theorem Axis.ofName?_name (a : Axis) : Axis.ofName? a.name = some a := by
  cases a <;> decide

inductive NodeTest where
  | name (name : String)
  /-- Any node of the kind that the axis is made of. -/
  | any
  | text
  | node
  deriving DecidableEq, Repr

inductive Function where
  | string
  | name
  | localName
  | count
  | concat
  | normalizeSpace
  | contains
  | startsWith
  | substring
  | substringBefore
  | substringAfter
  | stringLength
  | translate
  | sum
  | number
  | boolean
  | not
  | true
  | false
  | position
  | last
  | floor
  | ceiling
  | round
  deriving DecidableEq, Repr

def Function.all : List Function :=
  [.string, .name, .localName, .count, .concat, .normalizeSpace, .contains, .startsWith,
    .substring, .substringBefore, .substringAfter, .stringLength, .translate, .sum, .number,
    .boolean, .not, .true, .false, .position, .last, .floor, .ceiling, .round]

def Function.spelling : Function → String
  | .string => "string"
  | .name => "name"
  | .localName => "local-name"
  | .count => "count"
  | .concat => "concat"
  | .normalizeSpace => "normalize-space"
  | .contains => "contains"
  | .startsWith => "starts-with"
  | .substring => "substring"
  | .substringBefore => "substring-before"
  | .substringAfter => "substring-after"
  | .stringLength => "string-length"
  | .translate => "translate"
  | .sum => "sum"
  | .number => "number"
  | .boolean => "boolean"
  | .not => "not"
  | .true => "true"
  | .false => "false"
  | .position => "position"
  | .last => "last"
  | .floor => "floor"
  | .ceiling => "ceiling"
  | .round => "round"

def Function.ofName? (name : String) : Option Function :=
  Function.all.find? (·.spelling == name)

theorem Function.ofName?_spelling (f : Function) : Function.ofName? f.spelling = some f := by
  cases f <;> decide

/-- How many arguments a function takes; without a `most` there is no limit. -/
structure Arity where
  least : Nat
  most : Option Nat
  deriving DecidableEq, Repr

def Arity.allows (a : Arity) (n : Nat) : Bool :=
  a.least ≤ n && a.most.all (n ≤ ·)

def Function.arity : Function → Arity
  | .true | .false | .position | .last => ⟨0, some 0⟩
  | .string | .name | .localName | .normalizeSpace | .stringLength | .number => ⟨0, some 1⟩
  | .count | .sum | .boolean | .not | .floor | .ceiling | .round => ⟨1, some 1⟩
  | .contains | .startsWith | .substringBefore | .substringAfter => ⟨2, some 2⟩
  | .substring => ⟨2, some 3⟩
  | .translate => ⟨3, some 3⟩
  | .concat => ⟨2, none⟩

mutual

inductive Expr where
  | binary (op : BinaryOp) (left right : Expr)
  | negate (e : Expr)
  /-- Steps from the root, if absolute, or else from the node in question. -/
  | path (absolute : Bool) (steps : List Step)
  /-- The nodes of `primary` that all predicates keep, and the steps from there. -/
  | filter (primary : Expr) (predicates : List Expr) (steps : List Step)
  | literal (s : String)
  | number (x : Float)
  | call (f : Function) (arguments : List Expr)

inductive Step where
  | mk (axis : Axis) (test : NodeTest) (predicates : List Expr)

end

instance : Inhabited Expr := ⟨.literal ""⟩

instance : Inhabited Step := ⟨.mk .child .node []⟩

/-- The step that `//` stands for. -/
def Step.anywhereBelow : Step := .mk .descendantOrSelf .node []

end ComputedField.Query
