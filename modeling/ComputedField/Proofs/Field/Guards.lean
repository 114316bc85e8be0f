import Mathlib.Data.Finset.Card
import Mathlib.Data.List.Infix
import ComputedField.Field.Session

/-!
# Guards that are held

Guards may be dropped in any order. The marks of a session are those that were there before and one
for each guard that is held and has set its own; `Held.Over` says so, and every act keeps it. Whether
the marks tell for which fields guards are held depends on the order: they do for as long as nobody
drops the guard that has set a mark before the others for its field.
-/

namespace ComputedField

/-- A session and the guards that are held, the latest first. -/
structure Held where
  session : Session
  guards : List Guard
  deriving DecidableEq, Repr

inductive Act where
  /-- Takes a guard for a field. -/
  | enter (field : FieldId)
  /-- Drops the guard at a place among those held, if there is one. -/
  | drop (place : Nat)
  deriving DecidableEq, Repr

def marks (guards : List Guard) : List FieldId := (guards.filter (·.owned)).map (·.field)

section Marks

variable {guards others : List Guard} {g : Guard} {field : FieldId}

@[simp] theorem marks_nil : marks [] = [] := rfl

theorem marks_cons_owned (h : g.owned = true) : marks (g :: guards) = g.field :: marks guards := by
  simp [marks, h]

theorem marks_cons_unowned (h : g.owned = false) : marks (g :: guards) = marks guards := by
  simp [marks, h]

@[simp] theorem marks_append : marks (guards ++ others) = marks guards ++ marks others := by
  simp [marks]

theorem mem_marks : field ∈ marks guards ↔ ∃ g ∈ guards, g.owned = true ∧ g.field = field := by
  simp [marks, and_assoc]

end Marks

/-- A field that stands in a list once is all that is taken out with it. -/
theorem filter_ne_middle {field : FieldId} {before after : List FieldId}
    (h : field ∉ before ++ after) :
    (before ++ field :: after).filter (· != field) = before ++ after := by
  have hkept : (before ++ after).filter (· != field) = before ++ after := by
    refine List.filter_eq_self.mpr fun f hf => ?_
    rw [bne_iff_ne]
    rintro rfl
    exact h hf
  rw [List.filter_append, List.filter_cons_of_neg (by simp), ← List.filter_append, hkept]

namespace Held

def empty : Held := ⟨.empty, []⟩

def enter (h : Held) (field : FieldId) : Held :=
  ⟨(h.session.enter field).2, (h.session.enter field).1 :: h.guards⟩

def drop (h : Held) (place : Nat) : Held :=
  match h.guards[place]? with
  | none => h
  | some g => ⟨h.session.leave g, h.guards.eraseIdx place⟩

def step (h : Held) : Act → Held
  | .enter field => h.enter field
  | .drop place => h.drop place

def run (acts : List Act) : Held := acts.foldl step empty

variable {h : Held} {field : FieldId} {place : Nat} {g : Guard}

/-- A field that is entered is marked already, or its guard sets the mark. -/
theorem enter_cases (h : Held) (field : FieldId) :
    (field ∈ h.session.compiling ∧ h.enter field = ⟨h.session, ⟨field, false⟩ :: h.guards⟩) ∨
    (field ∉ h.session.compiling ∧
      h.enter field = ⟨⟨field :: h.session.compiling⟩, ⟨field, true⟩ :: h.guards⟩) := by
  by_cases hmem : field ∈ h.session.compiling
  · exact .inl ⟨hmem, by simp [enter, Session.enter, Session.isCompiling, hmem]⟩
  · exact .inr ⟨hmem, by simp [enter, Session.enter, Session.isCompiling, hmem]⟩

/-- There is no guard at the place, or the one there is taken out between the others. -/
theorem drop_cases (h : Held) (place : Nat) :
    (h.guards[place]? = none ∧ h.drop place = h) ∨
    ∃ later g earlier, h.guards[place]? = some g ∧ h.guards = later ++ g :: earlier ∧
      h.drop place = ⟨h.session.leave g, later ++ earlier⟩ := by
  unfold drop
  cases hg : h.guards[place]? with
  | none => exact .inl ⟨rfl, rfl⟩
  | some g =>
    obtain ⟨hlt, hget⟩ := List.getElem?_eq_some_iff.mp hg
    refine .inr ⟨h.guards.take place, g, h.guards.drop (place + 1), rfl, ?_, ?_⟩
    · rw [← hget, List.getElem_cons_drop, List.take_append_drop]
    · rw [List.eraseIdx_eq_take_drop_succ]

/-- The marks are those in `base` and those that the guards will take away, which are no others' and
different from each other. -/
structure Over (h : Held) (base : List FieldId) : Prop where
  compiling : h.session.compiling = marks h.guards ++ base
  nodup : (marks h.guards).Nodup
  apart : ∀ field ∈ marks h.guards, field ∉ base

variable {base : List FieldId}

theorem over_nil (s : Session) : Over ⟨s, []⟩ s.compiling := ⟨rfl, .nil, by simp⟩

/-- A guard for a field without a mark sets one of its own. -/
theorem Over.enter (hbase : h.Over base) (field : FieldId) : (h.enter field).Over base := by
  rcases h.enter_cases field with ⟨-, henter⟩ | ⟨hmem, henter⟩
  · rw [henter]
    exact ⟨hbase.compiling, hbase.nodup, hbase.apart⟩
  · rw [henter]
    rw [hbase.compiling, List.mem_append, not_or] at hmem
    refine ⟨congrArg (field :: ·) hbase.compiling, List.nodup_cons.mpr ⟨hmem.1, hbase.nodup⟩, ?_⟩
    intro f hf
    rcases List.mem_cons.mp hf with rfl | hf
    · exact hmem.2
    · exact hbase.apart f hf

/-- A guard that is dropped takes away its own mark and no other one. -/
theorem Over.drop (hbase : h.Over base) (place : Nat) : (h.drop place).Over base := by
  rcases h.drop_cases place with ⟨-, hdrop⟩ | ⟨later, g, earlier, -, hguards, hdrop⟩
  · rwa [hdrop]
  · obtain ⟨compiling, nodup, apart⟩ := hbase
    rw [hguards, marks_append] at compiling nodup apart
    rw [hdrop]
    cases howned : g.owned with
    | false =>
      rw [marks_cons_unowned howned, ← marks_append] at compiling nodup apart
      refine ⟨?_, nodup, apart⟩
      simpa [Session.leave, howned] using compiling
    | true =>
      rw [marks_cons_owned howned] at compiling nodup apart
      obtain ⟨hout, nodup⟩ := List.nodup_cons.mp (List.nodup_middle.mp nodup)
      have hrest : g.field ∉ marks later ++ (marks earlier ++ base) := by
        rw [← List.append_assoc, List.mem_append, not_or]
        exact ⟨hout, apart g.field (by simp)⟩
      rw [← marks_append] at nodup
      refine ⟨?_, nodup, fun f hf => apart f ?_⟩
      · simp only [Session.leave, howned, if_true, compiling, List.append_assoc, List.cons_append,
          filter_ne_middle hrest, marks_append]
      · rw [marks_append, List.mem_append] at hf
        rw [List.mem_append, List.mem_cons]
        tauto

theorem Over.step (hbase : h.Over base) (act : Act) : (h.step act).Over base := by
  cases act with
  | enter field => exact hbase.enter field
  | drop place => exact hbase.drop place

/-- Whatever has been done, the marks are those of the guards that are held. -/
theorem over_run (acts : List Act) : (run acts).Over [] := by
  suffices ∀ h : Held, h.Over [] → (acts.foldl Held.step h).Over [] from
    this empty (over_nil .empty)
  induction acts with
  | nil => exact fun _ hbase => hbase
  | cons act rest ih => exact fun h hbase => ih (h.step act) (hbase.step act)

/-- Whether the marks tell for which fields guards are held. -/
def Faithful (h : Held) : Prop :=
  (∀ field, h.session.isCompiling field = true ↔ ∃ g ∈ h.guards, g.field = field) ∧
    h.session.size = (h.guards.map (·.field)).toFinset.card

/-- Whether a guard that has set a mark is dropped only as the last one for its field. -/
def LeavesNone (h : Held) : Act → Prop
  | .enter _ => True
  | .drop place => ∀ g, h.guards[place]? = some g → g.owned = true →
    ∀ other ∈ (h.drop place).guards, other.field ≠ g.field

/-- Whether every guard that is held has its field's mark behind it. -/
def Covered (h : Held) : Prop :=
  ∀ g ∈ h.guards, ∃ owner ∈ h.guards, owner.owned = true ∧ owner.field = g.field

/-- A field counts as being compiled while the guard that marked it is held. -/
theorem Over.isCompiling_iff (hbase : h.Over []) :
    h.session.isCompiling field = true ↔ ∃ g ∈ h.guards, g.owned = true ∧ g.field = field := by
  rw [Session.isCompiling, List.contains_iff_mem, hbase.compiling, List.append_nil, mem_marks]

theorem Over.size_eq (hbase : h.Over []) : h.session.size = (marks h.guards).length := by
  rw [Session.size, hbase.compiling, List.append_nil]

/-- The marks tell the truth if no guard is held whose field has lost its mark. -/
theorem Over.faithful_iff (hbase : h.Over []) : h.Faithful ↔ h.Covered := by
  constructor
  · intro faithful g hg
    exact hbase.isCompiling_iff.mp ((faithful.1 g.field).mpr ⟨g, hg, rfl⟩)
  · intro covered
    have hmem (field : FieldId) : field ∈ marks h.guards ↔ ∃ g ∈ h.guards, g.field = field := by
      rw [mem_marks]
      constructor
      · rintro ⟨g, hg, -, hfield⟩
        exact ⟨g, hg, hfield⟩
      · rintro ⟨g, hg, rfl⟩
        exact covered g hg
    refine ⟨fun field => ?_, ?_⟩
    · rw [hbase.isCompiling_iff, ← mem_marks, hmem]
    · rw [hbase.size_eq, ← List.toFinset_card_of_nodup hbase.nodup]
      congr 1
      ext field
      simp [hmem]

theorem covered_empty : empty.Covered := by
  intro g hg
  cases hg

theorem Over.covered_enter (hbase : h.Over []) (covered : h.Covered) (field : FieldId) :
    (h.enter field).Covered := by
  rcases h.enter_cases field with ⟨hmem, henter⟩ | ⟨-, henter⟩
  · rw [henter]
    intro g hg
    rcases List.mem_cons.mp hg with rfl | hg
    · have hmark : h.session.isCompiling field = true := List.contains_iff_mem.mpr hmem
      obtain ⟨owner, howner, h⟩ := hbase.isCompiling_iff.mp hmark
      exact ⟨owner, List.mem_cons_of_mem _ howner, h⟩
    · obtain ⟨owner, howner, h⟩ := covered g hg
      exact ⟨owner, List.mem_cons_of_mem _ howner, h⟩
  · rw [henter]
    intro g hg
    rcases List.mem_cons.mp hg with rfl | hg
    · exact ⟨_, List.mem_cons_self, rfl, rfl⟩
    · obtain ⟨owner, howner, h⟩ := covered g hg
      exact ⟨owner, List.mem_cons_of_mem _ howner, h⟩

/-- The others stay covered without a guard that is dropped, unless it takes away a mark that one of
them needs. -/
theorem Over.covered_drop_iff (hbase : h.Over []) (covered : h.Covered) (place : Nat) :
    (h.drop place).Covered ↔ h.LeavesNone (.drop place) := by
  rcases h.drop_cases place with ⟨hnone, hdrop⟩ | ⟨later, g, earlier, hg, hguards, hdrop⟩
  · rw [hdrop]
    simp [LeavesNone, hnone, covered]
  · have hmem (k : Guard) : k ∈ h.guards ↔ k = g ∨ k ∈ later ++ earlier := by
      rw [hguards, List.mem_append, List.mem_cons, List.mem_append]
      tauto
    simp only [LeavesNone, hdrop]
    constructor
    · intro hcovered k hk howned other hother hfield
      cases hg.symm.trans hk
      obtain ⟨owner, howner, howned', hfield'⟩ := hcovered other hother
      -- Two guards would have set one mark.
      have hnodup := hbase.nodup
      rw [hguards, marks_append, marks_cons_owned howned, List.nodup_middle, ← marks_append] at hnodup
      have hmark : g.field ∈ marks (later ++ earlier) :=
        mem_marks.mpr ⟨owner, howner, howned', hfield'.trans hfield⟩
      exact (List.nodup_cons.mp hnodup).1 hmark
    · intro hleaves k hk
      obtain ⟨owner, howner, howned, hfield⟩ := covered k ((hmem k).mpr (.inr hk))
      rcases (hmem owner).mp howner with rfl | howner
      · exact absurd hfield.symm (hleaves owner hg howned k hk)
      · exact ⟨owner, howner, howned, hfield⟩

theorem Over.covered_step_iff (hbase : h.Over []) (covered : h.Covered) (act : Act) :
    (h.step act).Covered ↔ h.LeavesNone act := by
  cases act with
  | enter field => exact iff_of_true (hbase.covered_enter covered field) trivial
  | drop place => exact hbase.covered_drop_iff covered place

theorem run_append (acts : List Act) (act : Act) : run (acts ++ [act]) = (run acts).step act := by
  simp [run]

/-- No guard that is held loses its mark exactly if the one that has set it is always the last to go. -/
theorem covered_run_iff (acts : List Act) :
    (∀ past, past <+: acts → (run past).Covered) ↔
      ∀ past act, past ++ [act] <+: acts → (run past).LeavesNone act := by
  induction acts using List.reverseRecOn with
  | nil =>
    constructor
    · intro _ past act hpast
      simp at hpast
    · intro _ past hpast
      rw [List.prefix_nil.mp hpast]
      exact covered_empty
  | append_singleton acts act ih =>
    constructor
    · intro hcovered past next hpast
      have hbefore := hcovered past ((List.prefix_append past [next]).trans hpast)
      rw [← (over_run past).covered_step_iff hbefore, ← run_append]
      exact hcovered _ hpast
    · intro hleaves past hpast
      have hearlier := ih.mpr fun past act h => hleaves past act (h.trans (List.prefix_append _ _))
      rcases List.prefix_concat_iff.mp hpast with rfl | hpast
      · rw [run_append, (over_run acts).covered_step_iff (hearlier acts (List.prefix_refl _))]
        exact hleaves acts act (List.prefix_refl _)
      · exact hearlier past hpast

/-- However guards are taken and dropped, a field is marked just while the guard that has set its mark
is held. The marks tell after every act for which fields guards are held just if no such guard is ever
dropped before another one for its field. -/
theorem isCompiling_run_and_faithful_iff (acts : List Act) :
    (∀ field, (run acts).session.isCompiling field = true ↔
      ∃ g ∈ (run acts).guards, g.owned = true ∧ g.field = field) ∧
    (run acts).session.size = ((run acts).guards.filter (·.owned)).length ∧
    ((∀ past, past <+: acts → (run past).Faithful) ↔
      ∀ past act, past ++ [act] <+: acts → (run past).LeavesNone act) := by
  refine ⟨fun field => (over_run acts).isCompiling_iff, ?_, ?_⟩
  · rw [(over_run acts).size_eq, marks, List.length_map]
  · rw [← covered_run_iff]
    exact forall₂_congr fun past _ => (over_run past).faithful_iff

/-- The first of two guards for a field takes the mark away while the second is held. -/
theorem not_faithful_first_dropped :
    (run [.enter ⟨1⟩, .enter ⟨1⟩, .drop 1]).guards = [⟨⟨1⟩, false⟩] ∧
      (run [.enter ⟨1⟩, .enter ⟨1⟩, .drop 1]).session.isCompiling ⟨1⟩ = false ∧
      ¬ (run [.enter ⟨1⟩, .enter ⟨1⟩, .drop 1]).Faithful := by
  have hguards : (run [.enter ⟨1⟩, .enter ⟨1⟩, .drop 1]).guards = [⟨⟨1⟩, false⟩] := by decide
  have hmark : (run [.enter ⟨1⟩, .enter ⟨1⟩, .drop 1]).session.isCompiling ⟨1⟩ = false := by decide
  refine ⟨hguards, hmark, fun faithful => ?_⟩
  have htrue := (faithful.1 ⟨1⟩).mpr ⟨⟨⟨1⟩, false⟩, by rw [hguards]; exact List.mem_cons_self, rfl⟩
  rw [hmark] at htrue
  cases htrue

end Held

end ComputedField
