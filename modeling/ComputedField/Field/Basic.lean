import ComputedField.Config
import ComputedField.Field.Settings
import ComputedField.Field.Source
import ComputedField.Filter.Build
import ComputedField.Filter.Order
import ComputedField.Markup.Output
import ComputedField.Record.Grouping
import ComputedField.Record.Store

/-!
# Computed fields

A field computes a record for an entry from the entry's document and hands it to the host for
keeping. While it is compiling it does not appear in documents itself. Stored records leave it as
elements, exported values and groups, and entries are filtered and ordered by them.
-/

namespace ComputedField

inductive FieldError where
  | format (e : Format.Error)
  | documentLoad (entry : EntryId) (cause : Cause)
  | storage (entry : EntryId) (cause : Cause)
  | config (e : ConfigError)
  deriving DecidableEq, Repr

def FieldError.message : FieldError → String
  | .format e => e.message
  | .documentLoad entry _ => "failed to load document for entry " ++ entry.shown
  | .storage entry _ => "failed to store record for entry " ++ entry.shown
  | .config e => e.message

/-- Keeps a record, or says why it cannot. -/
abbrev Writer (host : Type) := Place → Record → host → Except Cause Unit × host

/-- Keeps records in a store. -/
def Store.writer : Writer Store := fun p r s => (.ok (), s.write p r)

structure Field where
  settings : Settings
  compiler : Template.Compiler

namespace Field

/-- A field under a configuration, which must be valid. -/
def make (settings : Settings) (registry : Format.Registry) (config : Config) :
    Except FieldError Field := do
  config.validate.mapError .config
  return ⟨settings, ⟨registry, config.handleMaxLength⟩⟩

variable (f : Field)

def id : FieldId := f.settings.field

def request (entry : EntryId) : Request :=
  ⟨entry, f.settings.element, f.settings.stylesheet, f.settings.counts⟩

/-- The record that the answers to queries give. -/
def record (ask : String → Option String) : Except Format.Error Record :=
  (f.compiler.compile (m := Id) ask f.settings.formatter f.settings.expression).run

variable {host : Type}

/-- Makes a record of what was loaded and writes it. -/
def keep (writer : Writer host) (entry : EntryId) (kept : host) :
    Except Cause (String → Option String) → Except FieldError Record × host
  | .error cause => (.error (.documentLoad entry cause), kept)
  | .ok ask =>
    match f.record ask with
    | .error e => (.error (.format e), kept)
    | .ok r =>
      match writer ⟨f.id, entry⟩ r kept with
      | (.error cause, kept) => (.error (.storage entry cause), kept)
      | (.ok (), kept) => (.ok r, kept)

/-- Computes and keeps the record of an entry. The field is marked as compiling from before the
document is loaded until all is done, whatever comes of it. -/
def compile (source : Source host) (writer : Writer host) (entry : EntryId) (w : Work host) :
    Except FieldError Record × Work host :=
  let (guard, session) := w.session.enter f.id
  let (loaded, w) := source (f.request entry) { w with session := session }
  let (result, kept) := f.keep writer entry w.host loaded
  (result, ⟨w.session.leave guard, kept⟩)

/-- The element for a record; there is none while the field is compiling, nor for an empty value. -/
def element? (s : Session) (r : Record) : Option Markup.OutputElement :=
  if s.isCompiling f.id || r.formatted.isEmpty then none
  else some ⟨f.settings.element, r.handle, r.formatted⟩

def order (text : String) : Filter.Order := .ofText f.id text

def addFilter (q : Filter.Combined) (tokens : List String) (all : Bool) :
    Filter.Outcome × Filter.Combined :=
  q.add f.id tokens all

def group (entries : List Entry) : Option (Grouping Entry) :=
  Grouping.of? (·.record? f.id) f.settings.element entries

end Field

end ComputedField
