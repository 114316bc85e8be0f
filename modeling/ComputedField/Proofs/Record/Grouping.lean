import ComputedField.Record.Grouping
import Mathlib.Data.List.Induction
import Mathlib.Data.List.Nodup

/-!
# Grouping is a stable partition

What grouping computes is said in one go: the handles in the order in which they appear, each with
the group of what has it. Adding one more keeps a grouping to that, with the kept places being those
of the handles, and everything about the groups is read off.
-/

namespace ComputedField

variable {α : Type} (recordOf : α → Option Record)

def handlesOf (xs : List α) : List String := (xs.map (Group.handleOf recordOf)).eraseDups

/-- Where in the list a handle appears first, the length of the list if it does not appear. -/
def firstPlace (xs : List α) (handle : String) : Nat :=
  (xs.map (Group.handleOf recordOf)).idxOf handle

section Handles

variable {recordOf} {xs : List α} {x : α} {handle : String}

theorem mem_handlesOf : handle ∈ handlesOf recordOf xs ↔
    ∃ x ∈ xs, Group.handleOf recordOf x = handle := by
  simp [handlesOf]

theorem handlesOf_append_known (h : Group.handleOf recordOf x ∈ handlesOf recordOf xs) :
    handlesOf recordOf (xs ++ [x]) = handlesOf recordOf xs := by
  have hin : Group.handleOf recordOf x ∈ xs.map (Group.handleOf recordOf) :=
    List.mem_eraseDups.mp h
  have hnone : [Group.handleOf recordOf x].removeAll (xs.map (Group.handleOf recordOf)) = [] := by
    simp only [List.removeAll, List.filter_singleton, List.elem_eq_mem, hin, decide_true]
    rfl
  simp only [handlesOf, List.map_append, List.map_singleton, List.eraseDups_append, hnone,
    List.eraseDups_nil, List.append_nil]

/-- A new handle comes last. -/
theorem handlesOf_append_new (h : Group.handleOf recordOf x ∉ handlesOf recordOf xs) :
    handlesOf recordOf (xs ++ [x]) = handlesOf recordOf xs ++ [Group.handleOf recordOf x] := by
  have hout : Group.handleOf recordOf x ∉ xs.map (Group.handleOf recordOf) :=
    mt List.mem_eraseDups.mpr h
  have hself : [Group.handleOf recordOf x].removeAll (xs.map (Group.handleOf recordOf)) =
      [Group.handleOf recordOf x] := by
    simp only [List.removeAll, List.filter_singleton, List.elem_eq_mem, hout, decide_false]
    rfl
  simp only [handlesOf, List.map_append, List.map_singleton, List.eraseDups_append, hself]
  rfl

theorem firstPlace_append (h : handle ∈ handlesOf recordOf xs) (ys : List α) :
    firstPlace recordOf (xs ++ ys) handle = firstPlace recordOf xs handle := by
  have hin : handle ∈ xs.map (Group.handleOf recordOf) := List.mem_eraseDups.mp h
  simp only [firstPlace, List.map_append, List.idxOf_append_of_mem hin]

theorem firstPlace_lt (h : handle ∈ handlesOf recordOf xs) :
    firstPlace recordOf xs handle < xs.length := by
  have hin : handle ∈ xs.map (Group.handleOf recordOf) := List.mem_eraseDups.mp h
  simpa [firstPlace] using List.idxOf_lt_length_of_mem hin

theorem firstPlace_new (h : Group.handleOf recordOf x ∉ handlesOf recordOf xs) :
    firstPlace recordOf (xs ++ [x]) (Group.handleOf recordOf x) = xs.length := by
  have hout : Group.handleOf recordOf x ∉ xs.map (Group.handleOf recordOf) :=
    mt List.mem_eraseDups.mpr h
  simp [firstPlace, List.idxOf_append_of_notMem hout]

variable (recordOf xs) in
/-- The handles come in the order in which they appear. -/
theorem handlesOf_ordered : (handlesOf recordOf xs).Pairwise fun a b =>
    firstPlace recordOf xs a < firstPlace recordOf xs b := by
  induction xs using List.reverseRecOn with
  | nil => exact List.Pairwise.nil
  | append_singleton xs x ih =>
    have hold : (handlesOf recordOf xs).Pairwise fun a b =>
        firstPlace recordOf (xs ++ [x]) a < firstPlace recordOf (xs ++ [x]) b :=
      ih.imp_of_mem fun ha hb hlt => by rwa [firstPlace_append ha, firstPlace_append hb]
    by_cases h : Group.handleOf recordOf x ∈ handlesOf recordOf xs
    · rwa [handlesOf_append_known h]
    · rw [handlesOf_append_new h, List.pairwise_append]
      refine ⟨hold, List.pairwise_singleton _ _, ?_⟩
      intro a ha b hb
      rw [List.mem_singleton.mp hb, firstPlace_append ha, firstPlace_new h]
      exact firstPlace_lt ha

variable (recordOf xs) in
theorem handlesOf_nodup : (handlesOf recordOf xs).Nodup :=
  (handlesOf_ordered recordOf xs).imp fun hlt heq => by simp [heq] at hlt

end Handles

def Group.within (xs : List α) (handle : String) : Group α :=
  let members := xs.filter (Group.handleOf recordOf · = handle)
  ⟨handle, ((members.head?.bind recordOf).map (·.formatted)).getD "", members⟩

namespace Group

variable {recordOf} {xs : List α} {x : α} {handle : String}

theorem within_append_other (h : handleOf recordOf x ≠ handle) :
    within recordOf (xs ++ [x]) handle = within recordOf xs handle := by
  simp [within, h]

theorem within_append_member (h : handleOf recordOf x ∈ handlesOf recordOf xs) :
    within recordOf (xs ++ [x]) (handleOf recordOf x) =
      (within recordOf xs (handleOf recordOf x)).add x := by
  obtain ⟨y, hy, hh⟩ := mem_handlesOf.mp h
  have hne : xs.filter (handleOf recordOf · = handleOf recordOf x) ≠ [] :=
    List.ne_nil_of_mem (List.mem_filter.mpr ⟨hy, by simpa using hh⟩)
  simp [within, add, List.head?_append_of_ne_nil _ hne]

theorem within_append_first (h : handleOf recordOf x ∉ handlesOf recordOf xs) :
    within recordOf (xs ++ [x]) (handleOf recordOf x) = ofFirst recordOf x := by
  have hnil : xs.filter (handleOf recordOf · = handleOf recordOf x) = [] := by
    rw [List.filter_eq_nil_iff]
    intro y hy heq
    exact h (mem_handlesOf.mpr ⟨y, hy, by simpa using heq⟩)
  simp [within, ofFirst, hnil]

end Group

section Keys

theorem idxOf?_append_new {keys : List String} {key : String} (h : key ∉ keys) (k : String) :
    (keys ++ [key]).idxOf? k = if k = key then some keys.length else keys.idxOf? k := by
  have hnone : keys.findIdx? (· == key) = none := List.idxOf?_eq_none_iff.mpr h
  simp only [List.idxOf?, List.findIdx?_append]
  by_cases heq : k = key
  · simp [heq, hnone]
  · simp [heq, Ne.symm heq]

/-- Changing what stands in the place of one key. -/
theorem modify_map_of_idxOf {β : Type} {keys : List String} (hn : keys.Nodup) {key : String}
    {place : Nat} (hp : keys.idxOf? key = some place) {f f' : String → β} {u : β → β}
    (hkey : f' key = u (f key)) (hother : ∀ k ∈ keys, k ≠ key → f' k = f k) :
    (keys.map f).modify place u = keys.map f' := by
  induction keys generalizing place with
  | nil => simp at hp
  | cons k keys ih =>
    obtain ⟨hk, hn⟩ := List.nodup_cons.mp hn
    by_cases heq : k = key
    · subst heq
      obtain rfl : place = 0 := by simpa [List.idxOf?_cons, eq_comm] using hp
      have hrest : keys.map f = keys.map f' := by
        refine List.map_congr_left fun k' hk' => (hother k' (by simp [hk']) ?_).symm
        rintro rfl
        exact hk hk'
      simp [hkey, hrest]
    · obtain ⟨rest, hrest, rfl⟩ : ∃ rest, keys.idxOf? key = some rest ∧ rest + 1 = place := by
        simpa [List.idxOf?_cons, heq] using hp
      have := ih hn hrest fun k' hk' => hother k' (by simp [hk'])
      simp [this, hother k (by simp) heq]

end Keys

namespace Grouping

/-- The grouping is that of what was seen: a group for each handle as they appear, and for each
handle the place of its group. -/
structure Follows (element : String) (seen : List α) (g : Grouping α) : Prop where
  element : g.element = element
  groups : g.groups = (handlesOf recordOf seen).map (Group.within recordOf seen)
  places : ∀ handle, g.places.lookup handle = (handlesOf recordOf seen).idxOf? handle

variable {recordOf} {element : String} {seen : List α} {g : Grouping α}

/-- One more thing changes the grouping as it changes what was seen. -/
theorem Follows.insert (hg : g.Follows recordOf element seen) (x : α) :
    (g.insert recordOf x).Follows recordOf element (seen ++ [x]) := by
  have hplace := hg.places (Group.handleOf recordOf x)
  cases hp : (handlesOf recordOf seen).idxOf? (Group.handleOf recordOf x) with
  | some place =>
    have hknown : Group.handleOf recordOf x ∈ handlesOf recordOf seen :=
      List.isSome_idxOf?.mp (Option.isSome_of_eq_some hp)
    simp only [Grouping.insert, hplace, hp]
    refine ⟨hg.element, ?_, ?_⟩
    · rw [handlesOf_append_known hknown, hg.groups]
      exact modify_map_of_idxOf (handlesOf_nodup recordOf seen) hp
        (Group.within_append_member hknown)
        fun handle _ hne => Group.within_append_other hne.symm
    · simpa only [handlesOf_append_known hknown] using hg.places
  | none =>
    have hnew : Group.handleOf recordOf x ∉ handlesOf recordOf seen :=
      List.idxOf?_eq_none_iff.mp hp
    simp only [Grouping.insert, hplace, hp]
    refine ⟨hg.element, ?_, fun handle => ?_⟩
    · have hold : (handlesOf recordOf seen).map (Group.within recordOf (seen ++ [x])) = g.groups := by
        rw [hg.groups]
        refine List.map_congr_left fun handle hin => Group.within_append_other ?_
        rintro rfl
        exact hnew hin
      rw [handlesOf_append_new hnew, List.map_append, hold, List.map_singleton,
        Group.within_append_first hnew]
    · -- the place kept for the new handle is the number of groups so far, where it is put
      rw [handlesOf_append_new hnew, idxOf?_append_new hnew, List.lookup_cons, hg.groups,
        List.length_map]
      by_cases heq : handle = Group.handleOf recordOf x
      · simp [heq]
      · simp [heq, beq_eq_false_iff_ne.mpr heq, hg.places]

theorem Follows.handles (hg : g.Follows recordOf element seen) :
    g.groups.map (·.handle) = handlesOf recordOf seen := by
  rw [hg.groups, List.map_map]
  exact List.map_id _

example : (of? id "letter" [some ⟨some "b", "b", "B"⟩, none, some ⟨some "b", "bb", "b"⟩]).map
    (·.groups.map fun a => (a.handle, a.value, a.members.length)) =
      some [("b", "B", 2), ("", "", 1)] := by
  decide

end Grouping

end ComputedField
