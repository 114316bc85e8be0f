import ComputedField.Decimal.Digits
import ComputedField.Format.Handle

/-!
# Configuration

How long handles may be, and what the tables of stored records and the entries are called in
conditions. The two names go into conditions as they are, so they must be plain identifiers.
-/

namespace ComputedField

structure Config where
  logLevel : String
  handleMaxLength : Nat
  tablePrefix : String
  entryAlias : String
  deriving DecidableEq, Repr

inductive ConfigName where
  | tablePrefix
  | entryAlias
  deriving DecidableEq, Repr

def ConfigName.shown : ConfigName → String
  | .tablePrefix => "table_prefix"
  | .entryAlias => "entry_alias"

/-- A name that is no plain identifier. -/
structure ConfigError where
  name : ConfigName
  value : String
  deriving DecidableEq, Repr

def ConfigError.message (e : ConfigError) : String :=
  "configuration error: " ++ e.name.shown ++ " must be a non-empty SQL identifier, got '" ++ e.value
    ++ "'"

/-- Whether a text is made of ASCII letters, digits and underscores. -/
def isPlainIdentifier (s : String) : Bool :=
  !s.isEmpty && s.toList.all fun c => c.isAlphanum || c == '_'

namespace Config

def standard : Config := ⟨"info", Format.defaultHandleLength, "tbl_entries_data_", "e"⟩

def name (c : Config) : ConfigName → String
  | .tablePrefix => c.tablePrefix
  | .entryAlias => c.entryAlias

def checkName (c : Config) (n : ConfigName) : Except ConfigError Unit :=
  if isPlainIdentifier (c.name n) then .ok () else .error ⟨n, c.name n⟩

def validate (c : Config) : Except ConfigError Unit := do
  c.checkName .tablePrefix
  c.checkName .entryAlias

/-- The least number that is too large for a length. -/
def lengthBound : Nat := UInt64.size

/-- The standard configuration with what an application's variables set; a variable is called by the
name of the application, an underscore and the name of the setting, and a length that is no number
sets nothing. -/
def ofVariables (application : String) (value? : String → Option String) : Config :=
  let setting? := fun name => value? (application ++ "_" ++ name)
  { logLevel := (setting? "LOG_LEVEL").getD standard.logLevel
    handleMaxLength :=
      ((setting? "HANDLE_MAX_LENGTH").bind fun v =>
        (Decimal.signedNatural? .decimal v.toList).filter (· < lengthBound)).getD
          standard.handleMaxLength
    tablePrefix := (setting? "TABLE_PREFIX").getD standard.tablePrefix
    entryAlias := (setting? "ENTRY_ALIAS").getD standard.entryAlias }

end Config

end ComputedField
