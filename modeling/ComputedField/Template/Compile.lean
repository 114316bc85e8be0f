import ComputedField.Format.Handle
import ComputedField.Format.Registry
import ComputedField.Query.Eval
import ComputedField.Record.Basic
import ComputedField.Template.Substitute

/-!
# From a template to a record

The filled-in template is the value of a record; its markup is what the selected formatter makes of
it, and its handle is made of its words.
-/

namespace ComputedField.Template

open Format

/-- Answers queries from a document; a query that has no value has no answer. -/
def askDocument (d : Markup.Document) (query : String) : Option String :=
  (Query.evaluateText d query).toOption

/-- What turns the texts of templates into records. -/
structure Compiler where
  registry : Registry
  maxLength : Nat

namespace Compiler

def record (k : Compiler) (selection : Selection) (value : String) :
    Except Format.Error Record :=
  (k.registry.formatOrEscape selection value).map fun formatted =>
    ⟨handle? k.maxLength value, value, formatted⟩

variable {m : Type → Type} [Monad m]

def compile (k : Compiler) (ask : Ask m) (selection : Selection) (template : String) :
    m (Except Format.Error Record) := do
  return k.record selection (← substitute ask template)

end Compiler

end ComputedField.Template
