import ComputedField.Field.Session
import ComputedField.Markup.Reader
import ComputedField.Template.Compile

/-!
# Documents to compute from

A host supplies the document of an entry, or says why it cannot. In doing so it may compile other
fields in the same session and change its own state.
-/

namespace ComputedField

/-- Why something that the host was asked for failed. -/
inductive Cause where
  | text (message : String)
  | markup (e : Markup.Error)
  deriving DecidableEq, Repr

def Cause.message : Cause → String
  | .text message => message
  | .markup e => e.message

/-- What a compiling field asks for. -/
structure Request where
  entry : EntryId
  element : String
  stylesheet : Option String
  counts : Bool
  deriving DecidableEq, Repr

/-- The session, and whatever else the host keeps. -/
structure Work (host : Type) where
  session : Session
  host : host

/-- Answers a request with the answers to queries. -/
abbrev Source (host : Type) :=
  Request → Work host → Except Cause (String → Option String) × Work host

/-- Documents of entries as text; the last one given for an entry counts, and an entry without one
has the empty document. -/
structure Documents where
  texts : List (EntryId × String)
  deriving DecidableEq, Repr

namespace Documents

def empty : Documents := ⟨[]⟩

def put (ds : Documents) (entry : EntryId) (text : String) : Documents :=
  ⟨(entry, text) :: ds.texts⟩

def load (ds : Documents) (entry : EntryId) : Except Cause Markup.Document :=
  match ds.texts.lookup entry with
  | none => .ok .empty
  | some text => (Markup.Document.parse text).mapError .markup

/-- The documents as a source that changes nothing. -/
def source {host : Type} (documentsOf : host → Documents) : Source host := fun request w =>
  (((documentsOf w.host).load request.entry).map Template.askDocument, w)

end Documents

end ComputedField
