import ComputedField.Identifier
import ComputedField.Record.Basic

/-!
# Groups of records

Entries whose records of a field share a handle form a group. Groups come in the order of their
first members, and take their value from the first member too. An entry without a record, and a
record without a handle, count under the empty handle. The place of each group is kept with its
handle, so that the group is found without a search.
-/

namespace ComputedField

/-- An entry with its records of some fields; one without an identifier is not saved yet. -/
structure Entry where
  id : Option EntryId
  data : List (FieldId × Record)
  deriving DecidableEq, Repr

namespace Entry

/-- Puts a record in the place of what the entry has for a field. -/
def put (e : Entry) (field : FieldId) (r : Record) : Entry :=
  { e with data := (field, r) :: e.data.filter (·.1 != field) }

def record? (e : Entry) (field : FieldId) : Option Record := e.data.lookup field

end Entry

structure Group (α : Type) where
  handle : String
  /-- The formatted value of the first member. -/
  value : String
  members : List α
  deriving DecidableEq, Repr

namespace Group

variable {α : Type} (recordOf : α → Option Record)

def handleOf (x : α) : String := ((recordOf x).bind (·.handle)).getD ""

/-- The group that a first member makes. -/
def ofFirst (x : α) : Group α :=
  ⟨handleOf recordOf x, ((recordOf x).map (·.formatted)).getD "", [x]⟩

def add (g : Group α) (x : α) : Group α := { g with members := g.members ++ [x] }

/-- The first group with a handle. -/
def find? (groups : List (Group α)) (handle : String) : Option (Group α) :=
  groups.find? (·.handle == handle)

end Group

/-- Groups that are written under the name of an element. -/
structure Grouping (α : Type) where
  element : String
  groups : List (Group α)
  /-- Where in the list the group with a handle stands. -/
  places : List (String × Nat)
  deriving DecidableEq, Repr

namespace Grouping

variable {α : Type} (recordOf : α → Option Record)

def start (element : String) : Grouping α := ⟨element, [], []⟩

/-- Adds one more to the group with its handle, or makes a new last group. -/
def insert (g : Grouping α) (x : α) : Grouping α :=
  let handle := Group.handleOf recordOf x
  match g.places.lookup handle with
  | some place => { g with groups := g.groups.modify place (·.add x) }
  | none =>
    { g with
      groups := g.groups ++ [Group.ofFirst recordOf x]
      places := (handle, g.groups.length) :: g.places }

/-- The group with a handle. -/
def get? (g : Grouping α) (handle : String) : Option (Group α) :=
  (g.places.lookup handle).bind (g.groups[·]?)

/-- Nothing is grouped where there is nothing. -/
def of? (element : String) (xs : List α) : Option (Grouping α) :=
  if xs.isEmpty then none else some (xs.foldl (insert recordOf) (start element))

end Grouping

end ComputedField
