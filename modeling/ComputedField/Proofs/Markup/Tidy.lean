import Mathlib.Data.List.Chain
import ComputedField.Proofs.Fallible
import ComputedField.Proofs.Markup.RoundTrip

/-!
# What can be read

Whatever text it is read from, content has no blank texts, no two texts in a row and no attribute
twice, and the root has one element at most. Every piece of markup keeps this of all that is finished,
also inside the elements that are still open. Between tags, moreover, the innermost of them does not
end in a text, so that the run of characters may be added to it.
-/

namespace ComputedField.Markup

open Text

mutual

def Content.Tidy : Content → Prop
  | .text value => isAllBlank value = false
  | .element _ attributes content =>
    (attributes.map (·.name)).Nodup ∧ textsApart content = true ∧ AllTidy content

def AllTidy : List Content → Prop
  | [] => True
  | c :: rest => c.Tidy ∧ AllTidy rest

end

theorem allTidy_iff {content : List Content} : AllTidy content ↔ ∀ c ∈ content, c.Tidy := by
  induction content with
  | nil => simp [AllTidy]
  | cons c rest ih => simp [AllTidy, ih]

section TextsApart

variable {c : Content} {content : List Content}

/-- No two texts are neighbours if none follows another one. -/
theorem textsApart_iff :
    textsApart content = true ↔ content.IsChain fun c d => ¬ (c.isText = true ∧ d.isText = true) := by
  induction content with
  | nil => simp [textsApart]
  | cons c rest ih =>
    cases rest with
    | nil => simp [textsApart]
    | cons d rest =>
      rw [List.isChain_cons_cons, ← ih, textsApart, Bool.and_eq_true, Bool.not_eq_true',
        ← Bool.not_eq_true, Bool.and_eq_true]

theorem textsApart_reverse (h : textsApart content = true) : textsApart content.reverse = true := by
  rw [textsApart_iff] at h ⊢
  rw [List.isChain_reverse]
  exact h.imp fun c d hcd => fun hdc => hcd hdc.symm

/-- In front of a text goes an element, or nothing. -/
theorem textsApart_cons (h : textsApart content = true)
    (hc : c.isText = false ∨ content.head?.any Content.isText = false) :
    textsApart (c :: content) = true := by
  cases content with
  | nil => rfl
  | cons d rest =>
    have hapart : (c.isText && d.isText) = false := by
      rcases hc with hc | hd
      · rw [hc, Bool.false_and]
      · rw [show d.isText = false from hd, Bool.and_false]
    rw [textsApart, hapart, h]
    rfl

end TextsApart

section Attributes

variable {attributes : List Attribute}

/-- The names of attributes that have been read are new and all different. -/
theorem nodup_of_readAttributes {seen : List String} {s : List Char}
    (h : readAttributes seen s = .ok attributes) :
    (attributes.map (·.name)).Nodup ∧ ∀ a ∈ attributes, a.name ∉ seen := by
  fun_induction readAttributes seen s generalizing attributes with
  | case1 =>
    cases h
    exact ⟨List.nodup_nil, fun a ha => absurd ha List.not_mem_nil⟩
  | case5 =>
    -- The one case in which an attribute is read: its name has not been seen.
    rename_i hseen raw after _ value _ _ ih
    obtain ⟨others, hothers, rfl⟩ := ok_of_map h
    obtain ⟨hnodup, hnew⟩ := ih hothers
    constructor
    · rw [List.map_cons, List.nodup_cons]
      refine ⟨fun hmem => ?_, hnodup⟩
      obtain ⟨a, ha, hname⟩ := List.mem_map.mp hmem
      exact hnew a ha (hname ▸ List.mem_cons_self)
    · intro a ha
      rcases List.mem_cons.mp ha with rfl | ha
      · exact hseen
      · exact fun hmem => hnew a ha (List.mem_cons_of_mem _ hmem)
  | case2 | case3 | case4 | case6 => cases h

theorem nodup_of_attributesOf {tag : List Char} (h : attributesOf tag = .ok attributes) :
    (attributes.map (·.name)).Nodup :=
  (nodup_of_readAttributes h).1

end Attributes

structure OpenElement.Tidy (e : OpenElement) : Prop where
  distinct : (e.attributes.map (·.name)).Nodup
  apart : textsApart e.content = true
  content : ∀ c ∈ e.content, c.Tidy

/-- One element, or nothing at all. -/
def AtMostOneElement (content : List Content) : Prop :=
  content = [] ∨ ∃ name attributes inner, content = [.element name attributes inner]

namespace Progress

/-- What is finished is tidy, and the root has nothing yet while an element is open. -/
structure Tidy (p : Progress) : Prop where
  opened : ∀ e ∈ p.opened, e.Tidy
  top : ∀ c ∈ p.top, c.Tidy
  room : p.opened ≠ [] → p.top = []
  single : AtMostOneElement p.top

/-- The innermost open element does not end in a text. -/
structure Ready (p : Progress) : Prop extends Tidy p where
  afterTag : ∀ e outer, p.opened = e :: outer → e.content.head?.any Content.isText = false

variable {p q : Progress} {c : Content} {name : String} {attributes : List Attribute}

theorem ready_start : start.Ready where
  opened := by simp [start]
  top := by simp [start]
  room := fun _ => rfl
  single := .inl rfl
  afterTag := by simp [start]

theorem Tidy.of_eq (h : p.Tidy) (hopened : q.opened = p.opened) (htop : q.top = p.top) : q.Tidy := by
  refine ⟨?_, ?_, ?_, ?_⟩
  · rw [hopened]
    exact h.opened
  · rw [htop]
    exact h.top
  · rw [hopened, htop]
    exact h.room
  · rw [htop]
    exact h.single

/-- Only an element may be added to the root, and to an open element nothing that lets texts meet. -/
theorem Tidy.add (h : p.Tidy) (hc : c.Tidy)
    (hroot : p.opened = [] → p.top = [] ∧ c.isText = false)
    (hapart : ∀ e outer, p.opened = e :: outer →
      c.isText = false ∨ e.content.head?.any Content.isText = false) : (p.add c).Tidy := by
  unfold Progress.add
  cases hopened : p.opened with
  | nil =>
    obtain ⟨htop, helement⟩ := hroot hopened
    dsimp only
    rw [htop]
    refine ⟨by simp, ?_, fun hne => absurd rfl hne, .inr ?_⟩
    · intro d hd
      rw [List.mem_singleton] at hd
      rwa [hd]
    · match c, helement with
      | .element name attributes inner, _ => exact ⟨name, attributes, inner, rfl⟩
  | cons e outer =>
    have htop : p.top = [] := h.room (by simp [hopened])
    have he : e.Tidy := h.opened e (by simp [hopened])
    refine ⟨?_, h.top, fun _ => htop, .inl htop⟩
    intro f hf
    rcases List.mem_cons.mp hf with rfl | hf
    · refine ⟨he.distinct, textsApart_cons he.apart (hapart e outer hopened), fun d hd => ?_⟩
      rcases List.mem_cons.mp hd with rfl | hd
      · exact hc
      · exact he.content d hd
    · exact h.opened f (by simp [hopened, hf])

/-- An element that has been added makes way for a text. -/
theorem Tidy.add_element (h : p.Tidy) {inner : List Content}
    (hc : (Content.element name attributes inner).Tidy) (hroot : p.opened = [] → p.top = []) :
    (p.add (.element name attributes inner)).Ready := by
  refine ⟨h.add hc (fun hopened => ⟨hroot hopened, rfl⟩) fun _ _ _ => .inl rfl, ?_⟩
  intro f outer hf
  unfold Progress.add at hf
  cases hopened : p.opened with
  | nil => simp [hopened] at hf
  | cons e tail =>
    rw [hopened] at hf
    cases hf
    rfl

/-- The run becomes a text of its own, behind something that is no text. -/
theorem Ready.flush (h : p.Ready) (hf : p.flush = .ok q) : q.Tidy := by
  unfold Progress.flush at hf
  split at hf
  · cases hf
    exact h.toTidy.of_eq rfl rfl
  · rename_i hblank
    split at hf
    · cases hf
    · rename_i hopened
      cases hf
      -- The run is not blank and an element is open, which ends in no text.
      have hended : ({ p with run := [] } : Progress).Tidy := h.toTidy.of_eq rfl rfl
      refine hended.add ?_ (fun hnil => ?_) fun e outer he => .inr (h.afterTag e outer he)
      · change isAllBlank _ = false
        rw [isAllBlank, String.toList_ofList]
        simpa using hblank
      · change p.opened = [] at hnil
        simp [hnil] at hopened

/-- A tag is entered if its attributes differ, and at the root only if nothing is there. -/
theorem enter_ok {tag : List Char} (h : p.enter tag = .ok (name, attributes)) :
    (p.opened = [] → p.top = []) ∧ (attributes.map (·.name)).Nodup := by
  unfold enter at h
  split at h
  · cases h
  · rename_i hroom
    obtain ⟨read, hread, he⟩ := ok_of_map h
    cases he
    exact ⟨fun hopened => by simpa [hopened] using hroom, nodup_of_attributesOf hread⟩

/-- An element that has just been opened has nothing yet that could be untidy. -/
theorem Tidy.inside (h : p.Tidy) (hroot : p.opened = [] → p.top = [])
    (hattributes : (attributes.map (·.name)).Nodup) : (p.inside name attributes).Ready := by
  have htop : p.top = [] := by
    by_cases hopened : p.opened = []
    · exact hroot hopened
    · exact h.room hopened
  refine ⟨⟨?_, h.top, fun _ => htop, .inl htop⟩, ?_⟩
  · intro e he
    rcases List.mem_cons.mp he with rfl | he
    · exact ⟨hattributes, rfl, fun c hc => absurd hc List.not_mem_nil⟩
    · exact h.opened e he
  · intro e outer he
    cases he
    rfl

/-- An element that is closed is an element to its parent, whatever it ends in. -/
theorem Tidy.leave {e : OpenElement} {outer : List OpenElement} (h : p.Tidy)
    (hopened : p.opened = e :: outer) : p.leave.Ready := by
  have htop : p.top = [] := h.room (by simp [hopened])
  have he : e.Tidy := h.opened e (by simp [hopened])
  have houter : ({ p with opened := outer } : Progress).Tidy :=
    ⟨fun f hf => h.opened f (by simp [hopened, hf]), h.top, fun _ => htop, .inl htop⟩
  have hleave : p.leave = ({ p with opened := outer } : Progress).add
      (.element e.name e.attributes e.content.reverse) := by
    rw [Progress.leave, hopened]
  rw [hleave]
  refine houter.add_element ⟨he.distinct, textsApart_reverse he.apart, ?_⟩ fun _ => htop
  exact allTidy_iff.mpr fun c hc => he.content c (List.mem_reverse.mp hc)

/-- Every piece of markup leaves the progress as tidy as it was. -/
theorem Ready.step (h : p.Ready) {t : Token} (hs : p.step t = .ok q) : q.Ready := by
  cases t with
  | aside =>
    cases hs
    exact h
  | text s =>
    cases hs
    exact ⟨h.toTidy.of_eq rfl rfl, h.afterTag⟩
  | reference name =>
    obtain ⟨c, -, hs⟩ := ok_of_bind hs
    cases hs
    exact ⟨h.toTidy.of_eq rfl rfl, h.afterTag⟩
  | startTag tag =>
    obtain ⟨r, hr, hs⟩ := ok_of_bind hs
    obtain ⟨⟨name, attributes⟩, henter, hs⟩ := ok_of_bind hs
    cases hs
    obtain ⟨hroot, hattributes⟩ := enter_ok henter
    exact (h.flush hr).inside hroot hattributes
  | emptyTag tag =>
    obtain ⟨r, hr, hs⟩ := ok_of_bind hs
    obtain ⟨⟨name, attributes⟩, henter, hs⟩ := ok_of_bind hs
    cases hs
    obtain ⟨hroot, hattributes⟩ := enter_ok henter
    exact (h.flush hr).add_element ⟨hattributes, rfl, trivial⟩ hroot
  | endTag name =>
    unfold Progress.step at hs
    dsimp only at hs
    split at hs
    · cases hs
    · rename_i e outer hopened
      split at hs
      · obtain ⟨r, hr, rfl⟩ := ok_of_map hs
        have hnames := opened_flush hr
        rw [hopened, List.map_cons] at hnames
        obtain ⟨f, rest, hf⟩ := List.exists_cons_of_ne_nil (l := r.opened) (by
          rintro hnil
          simp [hnil] at hnames)
        exact (h.flush hr).leave hf
      · cases hs

/-- Reading keeps everything tidy, piece by piece. -/
theorem Ready.steps (h : p.Ready) {pieces : List Token} (hs : p.steps pieces = .ok q) : q.Ready := by
  induction pieces generalizing p with
  | nil =>
    cases hs
    exact h
  | cons t rest ih =>
    obtain ⟨r, hr, hs⟩ := ok_of_bind hs
    exact ih (h.step hr) hs

/-- When all has been read, what is left is tidy content. -/
theorem Ready.finish (h : p.Ready) {content : List Content} (hf : p.finish = .ok content) :
    AllTidy content ∧ AtMostOneElement content := by
  unfold Progress.finish at hf
  split at hf
  · cases hf
  · obtain ⟨q, hq, rfl⟩ := ok_of_map hf
    have hq := h.flush hq
    refine ⟨allTidy_iff.mpr fun c hc => hq.top c (List.mem_reverse.mp hc), ?_⟩
    rcases hq.single with htop | ⟨name, attributes, inner, htop⟩
    · exact .inl (by rw [htop, List.reverse_nil])
    · exact .inr ⟨name, attributes, inner, by rw [htop, List.reverse_singleton]⟩

end Progress

/-- The content of a document that has been read is tidy, and no more than one element. -/
theorem tidy_of_readContent {s : String} {content : List Content} (h : readContent s = .ok content) :
    AllTidy content ∧ AtMostOneElement content := by
  obtain ⟨p, hp, h⟩ := ok_of_bind h
  have hready : p.Ready := Progress.ready_start.steps hp
  split at h
  · cases h
  · exact hready.finish h

end ComputedField.Markup
