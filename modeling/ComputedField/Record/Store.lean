import ComputedField.Identifier
import ComputedField.Record.Basic

/-!
# Stored records

Records by field and entry. Writing replaces what was there; the records of a field are listed in
the order of their entries.
-/

namespace ComputedField

structure Place where
  field : FieldId
  entry : EntryId
  deriving DecidableEq, Repr

/-- Each place holds one record at most. -/
structure Store where
  records : List (Place × Record)
  deriving DecidableEq, Repr

namespace Store

def empty : Store := ⟨[]⟩

variable (s : Store)

def get? (p : Place) : Option Record := s.records.lookup p

def remove (p : Place) : Store := ⟨s.records.filter (·.1 != p)⟩

def write (p : Place) (r : Record) : Store := ⟨(p, r) :: (s.remove p).records⟩

/-- Takes out the record at a place. -/
def take (p : Place) : Option Record × Store :=
  let (taken, kept) := s.records.partition (·.1 == p)
  (taken.head?.map (·.2), ⟨kept⟩)

def size : Nat := s.records.length

def isEmpty : Bool := s.records.isEmpty

/-- The records of a field with their entries. -/
def recordsOf (field : FieldId) : List (EntryId × Record) :=
  (s.records.filterMap fun (p, r) => if p.field = field then some (p.entry, r) else none).mergeSort
    fun a b => a.1.toNat ≤ b.1.toNat

variable {s}

theorem lookup_eq_head?_filter (p : Place) (rs : List (Place × Record)) :
    rs.lookup p = (rs.filter (·.1 == p)).head?.map (·.2) := by
  induction rs with
  | nil => rfl
  | cons head rest ih =>
    obtain ⟨place, r⟩ := head
    by_cases hp : place = p
    · simp [hp]
    · have hq : (p == place) = false := beq_false_of_ne (Ne.symm hp)
      simp [List.lookup_cons, hp, hq, ih]

theorem take_eq (p : Place) : s.take p = (s.get? p, s.remove p) := by
  rw [take, List.partition_eq_filter_filter, get?, lookup_eq_head?_filter]
  rfl

theorem get?_write_same (p : Place) (r : Record) : (s.write p r).get? p = some r := by
  simp [write, get?]

theorem lookup_filter_ne {p q : Place} (h : q ≠ p) (rs : List (Place × Record)) :
    (rs.filter (·.1 != p)).lookup q = rs.lookup q := by
  induction rs with
  | nil => rfl
  | cons head rest ih =>
    obtain ⟨place, r⟩ := head
    by_cases hp : place = p
    · have hq : (q == p) = false := by simp [h]
      simp [List.lookup_cons, hp, ih, hq]
    · by_cases hq : q = place
      · simp [hp, hq]
      · have hq : (q == place) = false := by simp [hq]
        simp [List.lookup_cons, hp, hq, ih]

theorem get?_remove_of_ne {p q : Place} (h : q ≠ p) : (s.remove p).get? q = s.get? q :=
  lookup_filter_ne h s.records

theorem get?_write_of_ne {p q : Place} (r : Record) (h : q ≠ p) :
    (s.write p r).get? q = s.get? q := by
  have hq : (q == p) = false := by simp [h]
  rw [← get?_remove_of_ne (s := s) h]
  simp [write, get?, List.lookup_cons, hq]

end Store

end ComputedField
