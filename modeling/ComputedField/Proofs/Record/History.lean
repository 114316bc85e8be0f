import Mathlib.Algebra.BigOperators.Group.Finset.Basic
import Mathlib.Algebra.Order.BigOperators.Group.Finset
import ComputedField.Record.Store

/-!
# What a store remembers

After any writes and removals a store has at a place what was last written there, unless it was
removed since. Places are never listed twice, so that the records of a field, put in order, are just
those that can be looked up, and the fields share out all records between them.
-/

namespace ComputedField

/-- A call that changes a store. -/
inductive Change where
  | write (p : Place) (r : Record)
  | remove (p : Place)
  deriving DecidableEq, Repr

namespace Change

def place : Change → Place
  | .write p _ => p
  | .remove p => p

/-- What there is at its place after a change. -/
def left? : Change → Option Record
  | .write _ r => some r
  | .remove _ => none

def writtenField? : Change → Option FieldId
  | .write p _ => some p.field
  | .remove _ => none

end Change

/-- Whether the last change at a place, of those in a row, writes a record there. -/
def WrittenLast (changes : List Change) (p : Place) (r : Record) : Prop :=
  ∃ earlier later, changes = earlier ++ .write p r :: later ∧ ∀ c ∈ later, c.place ≠ p

def writtenFields (changes : List Change) : Finset FieldId :=
  (changes.filterMap Change.writtenField?).toFinset

namespace Store

def change (s : Store) : Change → Store
  | .write p r => s.write p r
  | .remove p => (s.take p).2

def after (changes : List Change) : Store := changes.foldl change empty

theorem after_append (changes : List Change) (c : Change) :
    after (changes ++ [c]) = (after changes).change c := by
  simp [after]

section Lookup

variable {s : Store} {p : Place} {r : Record}

theorem get?_remove_same (p : Place) : (s.remove p).get? p = none := by
  rw [get?, List.lookup_eq_none_iff]
  intro x hx
  have hne : x.1 ≠ p := by simpa [remove] using (List.mem_filter.mp hx).2
  exact bne_iff_ne.mpr hne.symm

/-- A change is seen at its place and nowhere else. -/
theorem get?_change (c : Change) (p : Place) :
    (s.change c).get? p = if c.place = p then c.left? else s.get? p := by
  cases c with
  | write q r =>
    split
    case isTrue h =>
      cases h
      exact get?_write_same q r
    case isFalse h => exact get?_write_of_ne r (Ne.symm h)
  | remove q =>
    rw [change, take_eq]
    split
    case isTrue h =>
      cases h
      exact get?_remove_same q
    case isFalse h => exact get?_remove_of_ne (Ne.symm h)

end Lookup

end Store

section WrittenLast

variable {changes : List Change} {c : Change} {p : Place} {r : Record}

theorem not_writtenLast_nil : ¬ WrittenLast [] p r := by
  rintro ⟨earlier, later, h, -⟩
  cases earlier <;> cases h

/-- The latest change decides about its own place and about no other. -/
theorem writtenLast_append_iff :
    WrittenLast (changes ++ [c]) p r ↔
      if c.place = p then c = .write p r else WrittenLast changes p r := by
  constructor
  · rintro ⟨earlier, later, h, hlater⟩
    -- The write is the change at the end, or that change is a later one and leaves its place.
    rcases List.eq_nil_or_concat' later with rfl | ⟨others, d, rfl⟩
    · obtain ⟨-, hc⟩ := List.append_inj' h rfl
      cases hc
      rw [Change.place, if_pos rfl]
    · rw [← List.cons_append, ← List.append_assoc] at h
      obtain ⟨rfl, hd⟩ := List.append_inj' h rfl
      cases hd
      rw [if_neg (hlater c (by simp))]
      exact ⟨earlier, others, rfl, fun d hd => hlater d (List.mem_append_left _ hd)⟩
  · intro h
    split at h
    case isTrue =>
      subst h
      exact ⟨changes, [], rfl, fun d hd => absurd hd List.not_mem_nil⟩
    case isFalse hc =>
      obtain ⟨earlier, later, rfl, hlater⟩ := h
      refine ⟨earlier, later ++ [c], by simp, fun d hd => ?_⟩
      rcases List.mem_append.mp hd with hd | hd
      · exact hlater d hd
      · rwa [List.mem_singleton.mp hd]

/-- A record is found where it was written last, unless it was removed since. -/
theorem Store.get?_after_eq_some_iff :
    (Store.after changes).get? p = some r ↔ WrittenLast changes p r := by
  induction changes using List.reverseRecOn with
  | nil =>
    constructor
    · intro h
      cases h
    · exact fun h => absurd h not_writtenLast_nil
  | append_singleton changes c ih =>
    rw [Store.after_append, Store.get?_change, writtenLast_append_iff]
    split
    case isTrue hc =>
      cases c with
      | write q s =>
        cases hc
        simp [Change.left?, Change.place]
      | remove q => simp [Change.left?]
    case isFalse hc => exact ih

end WrittenLast

namespace Store

/-- No place is listed twice. -/
def Distinct (s : Store) : Prop := (s.records.map (·.1)).Nodup

section Distinct

variable {s : Store}

theorem Distinct.remove (h : s.Distinct) (p : Place) : (s.remove p).Distinct :=
  h.sublist (List.filter_sublist.map _)

/-- What is written takes the place of what was there. -/
theorem Distinct.write (h : s.Distinct) (p : Place) (r : Record) : (s.write p r).Distinct := by
  refine List.nodup_cons.mpr ⟨fun hmem => ?_, h.remove p⟩
  obtain ⟨x, hx, hp⟩ := List.mem_map.mp hmem
  have hne : x.1 ≠ p := by simpa using (List.mem_filter.mp hx).2
  exact hne hp

theorem Distinct.change (h : s.Distinct) (c : Change) : (s.change c).Distinct := by
  cases c with
  | write p r => exact h.write p r
  | remove p =>
    rw [Store.change, take_eq]
    exact h.remove p

theorem distinct_after (changes : List Change) : (after changes).Distinct := by
  induction changes using List.reverseRecOn with
  | nil => exact List.nodup_nil
  | append_singleton changes c ih =>
    rw [after_append]
    exact ih.change c

/-- A record is found exactly if it is listed. -/
theorem Distinct.get?_eq_some_iff (h : s.Distinct) {p : Place} {r : Record} :
    s.get? p = some r ↔ (p, r) ∈ s.records := by
  rw [get?, List.lookup_eq_some_iff]
  constructor
  · rintro ⟨front, back, hrecords, -⟩
    rw [hrecords]
    simp
  · intro hmem
    obtain ⟨front, back, hrecords⟩ := List.append_of_mem hmem
    refine ⟨front, back, hrecords, fun x hx => bne_iff_ne.mpr ?_⟩
    rintro rfl
    have hnodup : ((front ++ (x.1, r) :: back).map (·.1)).Nodup := hrecords ▸ h
    rw [List.map_append, List.map_cons, List.nodup_middle, List.nodup_cons] at hnodup
    exact hnodup.1 (List.mem_append_left _ (List.mem_map.mpr ⟨x, hx, rfl⟩))

end Distinct

section Listing

variable {s : Store} {field : FieldId}

def unorderedOf (s : Store) (field : FieldId) : List (EntryId × Record) :=
  s.records.filterMap fun (p, r) => if p.field = field then some (p.entry, r) else none

theorem recordsOf_perm (s : Store) (field : FieldId) :
    (s.recordsOf field).Perm (s.unorderedOf field) :=
  List.mergeSort_perm _ _

/-- The listing of a field has the records of the field. -/
theorem mem_recordsOf_iff {entry : EntryId} {r : Record} :
    (entry, r) ∈ s.recordsOf field ↔ (⟨field, entry⟩, r) ∈ s.records := by
  rw [(recordsOf_perm s field).mem_iff, unorderedOf, List.mem_filterMap]
  constructor
  · rintro ⟨⟨p, q⟩, hmem, h⟩
    dsimp only at h
    split at h
    case isTrue hp =>
      cases h
      cases hp
      exact hmem
    case isFalse => cases h
  · intro hmem
    exact ⟨_, hmem, if_pos rfl⟩

theorem Distinct.entries_nodup (h : s.Distinct) (field : FieldId) :
    ((s.recordsOf field).map (·.1)).Nodup := by
  rw [((recordsOf_perm s field).map (·.1)).nodup_iff, unorderedOf, List.map_filterMap]
  have hplaces : (s.records.map (·.1)).Pairwise (· ≠ ·) := h
  rw [List.pairwise_map] at hplaces
  refine List.Pairwise.filterMap _ (fun x y hxy e he e' he' => ?_) hplaces
  obtain ⟨⟨f, entry⟩, r⟩ := x
  obtain ⟨⟨f', entry'⟩, r'⟩ := y
  simp only [Option.map_eq_some_iff, Option.ite_none_right_eq_some] at he he'
  obtain ⟨_, ⟨rfl, h₁⟩, rfl⟩ := he
  obtain ⟨_, ⟨rfl, h₂⟩, rfl⟩ := he'
  cases h₁
  cases h₂
  rintro rfl
  exact hxy rfl

/-- The records of a field are listed by ascending entries. -/
theorem Distinct.ascending_recordsOf (h : s.Distinct) (field : FieldId) :
    (s.recordsOf field).Pairwise (fun x y => x.1.toNat < y.1.toNat) := by
  have hle : (s.recordsOf field).Pairwise (fun x y => decide (x.1.toNat ≤ y.1.toNat) = true) := by
    refine List.pairwise_mergeSort (fun x y z hxy hyz => ?_) (fun x y => ?_) _
    · simp only [decide_eq_true_eq] at hxy hyz ⊢
      omega
    · simp only [Bool.or_eq_true, decide_eq_true_eq]
      omega
  have hne := List.pairwise_map.mp (h.entries_nodup field)
  refine (hle.and hne).imp fun {x y} hxy => ?_
  refine Nat.lt_of_le_of_ne (of_decide_eq_true hxy.1) fun heq => ?_
  exact hxy.2 (Identifier.toNat_inj heq)

theorem length_recordsOf (s : Store) (field : FieldId) :
    (s.recordsOf field).length = (s.records.map (·.1.field)).count field := by
  rw [(recordsOf_perm s field).length_eq, unorderedOf, List.length_filterMap_eq_countP,
    List.count, List.countP_map]
  refine List.countP_congr fun x _ => ?_
  by_cases hx : x.1.field = field <;> simp [hx]

/-- Between them, fields that all records belong to have as many records as the store. -/
theorem size_eq_sum {fields : Finset FieldId} (h : ∀ x ∈ s.records, x.1.field ∈ fields) :
    s.size = ∑ field ∈ fields, (s.recordsOf field).length := by
  have hmem : ∀ field ∈ (s.records.map (·.1.field) : Multiset FieldId), field ∈ fields := by
    intro field hfield
    obtain ⟨x, hx, rfl⟩ := List.mem_map.mp (Multiset.mem_coe.mp hfield)
    exact h x hx
  simp only [length_recordsOf, ← Multiset.coe_count]
  rw [Multiset.sum_count_eq_card hmem, Multiset.coe_card, List.length_map, size]

end Listing

/-- Nothing is stored for a field that nothing was written for. -/
theorem mem_writtenFields {changes : List Change} {x : Place × Record}
    (hx : x ∈ (after changes).records) : x.1.field ∈ writtenFields changes := by
  obtain ⟨earlier, later, rfl, -⟩ := get?_after_eq_some_iff.mp
    ((distinct_after changes).get?_eq_some_iff.mpr hx)
  simp [writtenFields, Change.writtenField?]

/-- After any changes, a store has at each place the record that was last written there and not
removed since, and that is what a removal hands out. The records of a field are listed by ascending
entries, just those that can be looked up, and the lists of the written fields make up the store. -/
theorem after_remembers (changes : List Change) :
    (∀ p r, (after changes).get? p = some r ↔ WrittenLast changes p r) ∧
    (∀ p, ((after changes).take p).1 = (after changes).get? p) ∧
    (∀ field, ((after changes).recordsOf field).Pairwise (fun x y => x.1.toNat < y.1.toNat) ∧
      ∀ entry r, (entry, r) ∈ (after changes).recordsOf field ↔
        (after changes).get? ⟨field, entry⟩ = some r) ∧
    (after changes).size =
      ∑ field ∈ writtenFields changes, ((after changes).recordsOf field).length := by
  have distinct := distinct_after changes
  refine ⟨fun p r => get?_after_eq_some_iff, fun p => ?_, fun field => ⟨?_, fun entry r => ?_⟩, ?_⟩
  · rw [take_eq]
  · exact distinct.ascending_recordsOf field
  · rw [mem_recordsOf_iff, distinct.get?_eq_some_iff]
  · exact size_eq_sum fun x hx => mem_writtenFields hx

end Store

end ComputedField
