import ComputedField.Identifier

/-!
# Sessions

A session knows which fields are being compiled. Whoever compiles a field holds a guard for it; the
guard that set the mark takes it away again, and any other guard for the same field leaves it.
-/

namespace ComputedField

/-- The fields that are compiling, each of them once. -/
structure Session where
  compiling : List FieldId
  deriving DecidableEq, Repr

structure Guard where
  field : FieldId
  /-- Whether the guard set the mark of its field. -/
  owned : Bool
  deriving DecidableEq, Repr

namespace Session

def empty : Session := ⟨[]⟩

variable (s : Session)

def isCompiling (field : FieldId) : Bool := s.compiling.contains field

def size : Nat := s.compiling.length

def isEmpty : Bool := s.compiling.isEmpty

def enter (field : FieldId) : Guard × Session :=
  if s.isCompiling field then (⟨field, false⟩, s)
  else (⟨field, true⟩, ⟨field :: s.compiling⟩)

def leave (g : Guard) : Session :=
  if g.owned then ⟨s.compiling.filter (· != g.field)⟩ else s

theorem isCompiling_enter (field : FieldId) : (s.enter field).2.isCompiling field = true := by
  unfold enter
  split
  · assumption
  · simp [isCompiling]

end Session

end ComputedField
