import ComputedField.Config
import ComputedField.Filter.Order
import ComputedField.Sql.Condition

/-!
# Tables

Every field has a table of records whose name ends in the number of the field. Joins attach it to the
table of entries, which goes by an alias in the surrounding query.
-/

namespace ComputedField.Sql

open ComputedField.Filter

structure Schema where
  tablePrefix : String
  entryAlias : String
  deriving DecidableEq, Repr

namespace Schema

def ofConfig (c : Config) : Schema := ⟨c.tablePrefix, c.entryAlias⟩

def standard : Schema := ofConfig .standard

variable (s : Schema)

def table (field : FieldId) : String := s.tablePrefix ++ field.shown

def writeJoin (j : Join) : String :=
  "LEFT JOIN \x60" ++ s.table j.field ++ "\x60 AS " ++ j.name ++ " ON (" ++ s.entryAlias
    ++ ".id = " ++ j.name ++ ".entry_id)"

/-- Joins, one a line. -/
def writeJoins (js : List Join) : String := "\n".intercalate (js.map s.writeJoin)

def writeOrder : Order → String
  | .random => "ORDER BY RAND()"
  | .byValue field direction =>
    "ORDER BY (SELECT \x60ed\x60.value FROM \x60" ++ s.table field
      ++ "\x60 AS \x60ed\x60 WHERE \x60ed\x60.entry_id = " ++ s.entryAlias ++ ".id) "
      ++ direction.keyword

end Schema

end ComputedField.Sql
