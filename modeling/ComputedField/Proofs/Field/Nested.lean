import ComputedField.Field.Basic
import ComputedField.Proofs.Field.Guards

/-!
# Fields that compile fields

A source may do as it likes before it answers: look at the session, change what the host keeps, take
guards and drop them in any order, and compile fields whose sources do the same. It gets the session
with the request, so guards that it takes are not held for longer: those left are dropped when it
answers. By induction on the calls within each other, a source leaves the session as it was, and the
marks that it found stay in all sessions on the way.
-/

namespace ComputedField

/-- What a source does until it answers. -/
inductive Loading (host : Type) where
  | answer (loaded : Except Cause (String → Option String))
  | look (next : Session → host → Loading host)
  | put (kept : host) (next : Loading host)
  /-- Takes a guard, or drops one of its own. -/
  | act (a : Act) (next : Loading host)
  | compile (field : Field) (entry : EntryId) (source : Request → Loading host)
      (writer : Writer host) (next : Except FieldError Record → Loading host)

namespace Loading

variable {host : Type}

def run : Loading host → Held → host → Except Cause (String → Option String) × Work host
  | .answer loaded, h, kept => (loaded, ⟨h.guards.foldl Session.leave h.session, kept⟩)
  | .look next, h, kept => (next h.session kept).run h kept
  | .put kept next, h, _ => next.run h kept
  | .act a next, h, kept => next.run (h.step a) kept
  | .compile field entry source writer next, h, kept =>
    let (result, w) := field.compile (fun request w => (source request).run ⟨w.session, []⟩ w.host)
      writer entry ⟨h.session, kept⟩
    (next result).run ⟨w.session, h.guards⟩ w.host

/-- The source that answers each request in its own way. It holds no guards at first. -/
def source (loading : Request → Loading host) : Source host := fun request w =>
  (loading request).run ⟨w.session, []⟩ w.host

/-- All sessions on the way to the answer, those inside of other calls among them. -/
def sessions : Loading host → Held → host → List Session
  | .answer _, h, _ => h.guards.scanl Session.leave h.session
  | .look next, h, kept => h.session :: (next h.session kept).sessions h kept
  | .put kept next, h, _ => h.session :: next.sessions h kept
  | .act a next, h, kept => h.session :: next.sessions (h.step a) kept
  | .compile field entry loading writer next, h, kept =>
    let (result, w) := field.compile (source loading) writer entry ⟨h.session, kept⟩
    h.session ::
      ((loading (field.request entry)).sessions ⟨(h.session.enter field.id).2, []⟩ kept ++
        (next result).sessions ⟨w.session, h.guards⟩ w.host)

section Compile

variable (field : Field) (entry : EntryId) (loading : Request → Loading host)
  (writer : Writer host) (next : Except FieldError Record → Loading host) (h : Held) (kept : host)

theorem run_compile : (compile field entry loading writer next).run h kept =
    (next (field.compile (source loading) writer entry ⟨h.session, kept⟩).1).run
      ⟨(field.compile (source loading) writer entry ⟨h.session, kept⟩).2.session, h.guards⟩
      (field.compile (source loading) writer entry ⟨h.session, kept⟩).2.host := rfl

theorem sessions_compile : (compile field entry loading writer next).sessions h kept =
    h.session :: ((loading (field.request entry)).sessions ⟨(h.session.enter field.id).2, []⟩ kept ++
      (next (field.compile (source loading) writer entry ⟨h.session, kept⟩).1).sessions
        ⟨(field.compile (source loading) writer entry ⟨h.session, kept⟩).2.session, h.guards⟩
        (field.compile (source loading) writer entry ⟨h.session, kept⟩).2.host) := rfl

end Compile

end Loading

/-- What a writer does to the store that the host keeps: it never fails and writes the record. -/
def Writer.KeepsIn {host : Type} (writer : Writer host) (store : host → Store) : Prop :=
  ∀ p r kept, (writer p r kept).1 = .ok () ∧ store (writer p r kept).2 = (store kept).write p r

theorem Store.writer_keepsIn : Store.writer.KeepsIn (fun s => s) := fun _ _ _ => ⟨rfl, rfl⟩

namespace Session

/-- What a guard has done to a session is undone when it goes. -/
theorem leave_enter (s : Session) (field : FieldId) : (s.enter field).2.leave (s.enter field).1 = s := by
  rw [enter]
  split
  · rfl
  · rename_i hmark
    have hout : field ∉ [] ++ s.compiling := by simpa [isCompiling] using hmark
    simp only [leave, if_true]
    exact congrArg mk (filter_ne_middle hout)

theorem mem_enter {s : Session} {field f : FieldId} (h : f ∈ s.compiling) :
    f ∈ (s.enter field).2.compiling := by
  rw [enter]
  split
  · exact h
  · exact List.mem_cons_of_mem _ h

end Session

namespace Field

variable {host : Type} {f : Field} {source : Source host} {writer : Writer host} {entry : EntryId}
  {w : Work host}

/-- What a source is asked for, and what it starts from. -/
def asked (f : Field) (source : Source host) (entry : EntryId) (w : Work host) :
    Except Cause (String → Option String) × Work host :=
  source (f.request entry) { w with session := (w.session.enter f.id).2 }

/-- If loading leaves the session as it finds it, so does the call. -/
theorem session_compile (h : (f.asked source entry w).2.session = (w.session.enter f.id).2) :
    (f.compile source writer entry w).2.session = w.session := by
  change (f.asked source entry w).2.session.leave (w.session.enter f.id).1 = w.session
  rw [h, Session.leave_enter]

/-- The ways a call ends: what was loaded, its result, and what the host keeps in the end. -/
inductive Ends (f : Field) (writer : Writer host) (entry : EntryId) (kept : host) :
    Except Cause (String → Option String) → Except FieldError Record → host → Prop where
  | unloaded {cause : Cause} :
      Ends f writer entry kept (.error cause) (.error (.documentLoad entry cause)) kept
  | unformatted {ask : String → Option String} {e : Format.Error} (h : f.record ask = .error e) :
      Ends f writer entry kept (.ok ask) (.error (.format e)) kept
  | unstored {ask : String → Option String} {r : Record} {cause : Cause} {kept' : host}
      (h : f.record ask = .ok r) (hw : writer ⟨f.id, entry⟩ r kept = (.error cause, kept')) :
      Ends f writer entry kept (.ok ask) (.error (.storage entry cause)) kept'
  | stored {ask : String → Option String} {r : Record} {kept' : host} (h : f.record ask = .ok r)
      (hw : writer ⟨f.id, entry⟩ r kept = (.ok (), kept')) :
      Ends f writer entry kept (.ok ask) (.ok r) kept'

theorem ends_keep (f : Field) (writer : Writer host) (entry : EntryId) (kept : host)
    (loaded : Except Cause (String → Option String)) :
    f.Ends writer entry kept loaded (f.keep writer entry kept loaded).1
      (f.keep writer entry kept loaded).2 := by
  unfold keep
  split
  · exact .unloaded
  · split
    · rename_i hr
      exact .unformatted hr
    · rename_i hr
      split
      · rename_i hw
        exact .unstored hr hw
      · rename_i hw
        exact .stored hr hw

theorem ends_compile (f : Field) (source : Source host) (writer : Writer host) (entry : EntryId)
    (w : Work host) :
    f.Ends writer entry (f.asked source entry w).2.host (f.asked source entry w).1
      (f.compile source writer entry w).1 (f.compile source writer entry w).2.host :=
  f.ends_keep writer entry _ _

/-- Without a record nothing is written. -/
theorem Ends.unwritten {kept kept' : host} {loaded : Except Cause (String → Option String)}
    {result : Except FieldError Record} (h : f.Ends writer entry kept loaded result kept')
    (hnone : ∀ ask r, loaded = .ok ask → f.record ask ≠ .ok r) :
    (∃ e, result = .error e) ∧ kept' = kept := by
  cases h with
  | unloaded => exact ⟨⟨_, rfl⟩, rfl⟩
  | unformatted _ => exact ⟨⟨_, rfl⟩, rfl⟩
  | unstored hr _ => exact absurd hr (hnone _ _ rfl)
  | stored hr _ => exact absurd hr (hnone _ _ rfl)

/-- The record is written at its own place, and the other places keep what they have. -/
theorem Ends.stored_only {kept kept' : host} {loaded : Except Cause (String → Option String)}
    {r : Record} {store : host → Store} (h : f.Ends writer entry kept loaded (.ok r) kept')
    (hkeeps : writer.KeepsIn store) :
    (store kept').get? ⟨f.id, entry⟩ = some r ∧
      ∀ p, p ≠ ⟨f.id, entry⟩ → (store kept').get? p = (store kept).get? p := by
  cases h with
  | stored _ hw =>
    have hwrite : store kept' = (store kept).write ⟨f.id, entry⟩ r := by
      rw [← (hkeeps _ r kept).2, hw]
    rw [hwrite]
    exact ⟨Store.get?_write_same _ r, fun p hp => Store.get?_write_of_ne r hp⟩

end Field

namespace Held

variable {h : Held} {base : List FieldId}

theorem Over.subset (hbase : h.Over base) : base ⊆ h.session.compiling := by
  rw [hbase.compiling]
  exact List.subset_append_right _ _

/-- Dropping all guards leaves what was there before, and no mark of that is ever missing. -/
theorem Over.release (hbase : h.Over base) :
    h.guards.foldl Session.leave h.session = ⟨base⟩ ∧
      ∀ s ∈ h.guards.scanl Session.leave h.session, base ⊆ s.compiling := by
  obtain ⟨session, guards⟩ := h
  induction guards generalizing session with
  | nil =>
    refine ⟨congrArg Session.mk hbase.compiling, fun s hs => ?_⟩
    rw [List.scanl_nil, List.mem_singleton] at hs
    rw [hs]
    exact hbase.subset
  | cons g rest ih =>
    obtain ⟨hlast, hpassed⟩ := ih (session.leave g) (hbase.drop 0)
    refine ⟨hlast, fun s hs => ?_⟩
    rw [List.scanl_cons, List.mem_cons] at hs
    rcases hs with rfl | hs
    · exact hbase.subset
    · exact hpassed s hs

end Held

namespace Loading

variable {host : Type} {base : List FieldId}

/-- Once a source has answered, the marks are those that were there before its own guards. -/
theorem session_run (loading : Loading host) {h : Held} (hbase : h.Over base) (kept : host) :
    (loading.run h kept).2.session = ⟨base⟩ := by
  induction loading generalizing h base kept with
  | answer loaded => exact hbase.release.1
  | look next ih => exact ih h.session kept hbase kept
  | put _ next ih => exact ih hbase _
  | act a next ih => exact ih (hbase.step a) kept
  | compile field entry loading writer next ihloading ih =>
    have hsession : (field.compile (source loading) writer entry ⟨h.session, kept⟩).2.session =
        h.session := Field.session_compile (ihloading _ (Held.over_nil _) _)
    rw [run_compile, hsession]
    exact ih _ hbase _

theorem session_source (loading : Request → Loading host) (request : Request) (w : Work host) :
    (source loading request w).2.session = w.session :=
  (loading request).session_run (Held.over_nil _) _

/-- No mark that was there before a source's own guards is missing in any session on the way. -/
theorem subset_of_mem_sessions (loading : Loading host) {h : Held} (hbase : h.Over base)
    (kept : host) : ∀ s ∈ loading.sessions h kept, base ⊆ s.compiling := by
  induction loading generalizing h base kept with
  | answer loaded => exact hbase.release.2
  | look next ih =>
    intro s hs
    rcases List.mem_cons.mp hs with rfl | hs
    · exact hbase.subset
    · exact ih _ _ hbase _ s hs
  | put kept next ih =>
    intro s hs
    rcases List.mem_cons.mp hs with rfl | hs
    · exact hbase.subset
    · exact ih hbase _ s hs
  | act a next ih =>
    intro s hs
    rcases List.mem_cons.mp hs with rfl | hs
    · exact hbase.subset
    · exact ih (hbase.step a) _ s hs
  | compile field entry loading writer next ihloading ih =>
    have hsession : (field.compile (source loading) writer entry ⟨h.session, kept⟩).2.session =
        h.session := Field.session_compile (session_source _ _ _)
    intro s hs
    rw [sessions_compile, hsession, List.mem_cons, List.mem_append] at hs
    rcases hs with rfl | hs | hs
    · exact hbase.subset
    · -- the marks that a call within finds are those here and its own
      have hinside := ihloading _ (Held.over_nil _) _ s hs
      exact fun f hf => hinside (Session.mem_enter (hbase.subset hf))
    · exact ih _ hbase _ s hs

end Loading

namespace Field

variable {host : Type}

/-- A field that is marked has no element. -/
theorem element?_of_isCompiling {f : Field} {s : Session} (h : s.isCompiling f.id = true)
    (r : Record) : f.element? s r = none := by
  rw [element?, if_pos]
  rw [h, Bool.true_or]

/-- However the calls of a source lie within each other, the field is marked all along and the session
is restored. Nothing is written unless there is a record, and a store that keeps it changes nowhere
else. -/
theorem marked_restored_and_kept (f : Field) (loading : Request → Loading host)
    (writer : Writer host) (entry : EntryId) (w : Work host) :
    (∀ s ∈ (loading (f.request entry)).sessions ⟨(w.session.enter f.id).2, []⟩ w.host,
      s.isCompiling f.id = true ∧ ∀ r, f.element? s r = none) ∧
    (f.compile (Loading.source loading) writer entry w).2.session = w.session ∧
    ((∀ ask r, (f.asked (Loading.source loading) entry w).1 = .ok ask → f.record ask ≠ .ok r) →
      (∃ e, (f.compile (Loading.source loading) writer entry w).1 = .error e) ∧
      (f.compile (Loading.source loading) writer entry w).2.host =
        (f.asked (Loading.source loading) entry w).2.host) ∧
    ∀ r store, (f.compile (Loading.source loading) writer entry w).1 = .ok r →
      writer.KeepsIn store →
        (store (f.compile (Loading.source loading) writer entry w).2.host).get? ⟨f.id, entry⟩ =
          some r ∧
        ∀ p, p ≠ ⟨f.id, entry⟩ →
          (store (f.compile (Loading.source loading) writer entry w).2.host).get? p =
            (store (f.asked (Loading.source loading) entry w).2.host).get? p := by
  have hends := f.ends_compile (Loading.source loading) writer entry w
  refine ⟨fun s hs => ?_, session_compile (Loading.session_source _ _ _), hends.unwritten, ?_⟩
  · have hmarks := Loading.subset_of_mem_sessions _ (Held.over_nil _) _ s hs
    have hmark : s.isCompiling f.id = true :=
      List.contains_iff_mem.mpr (hmarks (List.contains_iff_mem.mp (w.session.isCompiling_enter f.id)))
    exact ⟨hmark, element?_of_isCompiling hmark⟩
  · intro r store hr hkeeps
    rw [hr] at hends
    exact hends.stored_only hkeeps

/-- A source that first compiles the same field for the same entry. -/
theorem marked_restored_and_kept_again :
    ∃ (f : Field) (loading : Request → Loading Store),
      (∀ request, loading request = .compile f request.entry (fun _ => .answer (.ok fun _ => none))
        Store.writer fun _ => .answer (.ok fun _ => none)) ∧
      Store.writer.KeepsIn (fun s => s) ∧
      (f.compile (Loading.source loading) Store.writer ⟨7⟩ ⟨.empty, .empty⟩).1 =
        .ok ⟨some "v", "v", "v"⟩ ∧
      (f.compile (Loading.source loading) Store.writer ⟨7⟩ ⟨.empty, .empty⟩).2.session = .empty ∧
      (f.compile (Loading.source loading) Store.writer ⟨7⟩ ⟨.empty, .empty⟩).2.host.get?
        ⟨f.id, ⟨7⟩⟩ = some ⟨some "v", "v", "v"⟩ := by
  let f : Field := ⟨⟨⟨1⟩, "x", "v", .none, none, false⟩, ⟨.empty, 255⟩⟩
  let loading : Request → Loading Store := fun request =>
    .compile f request.entry (fun _ => .answer (.ok fun _ => none)) Store.writer
      fun _ => .answer (.ok fun _ => none)
  have hresult : (f.compile (Loading.source loading) Store.writer ⟨7⟩ ⟨.empty, .empty⟩).1 =
      .ok ⟨some "v", "v", "v"⟩ := by
    decide +kernel
  obtain ⟨-, hsession, -, hkept⟩ := f.marked_restored_and_kept loading Store.writer ⟨7⟩ ⟨.empty, .empty⟩
  have hplace := (hkept _ _ hresult Store.writer_keepsIn).1
  exact ⟨f, loading, fun _ => rfl, Store.writer_keepsIn, hresult, hsession, hplace⟩

end Field

end ComputedField
