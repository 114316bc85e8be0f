import ComputedField.Proofs.Markup.Numbering
import ComputedField.Proofs.Markup.Resume

/-!
# Written documents

How a tree is written: every element as a start tag, its content and an end tag, every text escaped.
A written element is read back as the document that numbers the tree it was written from.
-/

namespace ComputedField.Markup

open Text

mutual

def Content.written : Content → List Char
  | .text value => (escape value).toList
  | .element name attributes content => elementText name attributes (writtenAll content)

def writtenAll : List Content → List Char
  | [] => []
  | c :: rest => c.written ++ writtenAll rest

end

def Content.isText : Content → Bool
  | .text _ => true
  | .element .. => false

def textsApart : List Content → Bool
  | c :: d :: rest => !(c.isText && d.isText) && textsApart (d :: rest)
  | _ => true

mutual

/-- Whether a tree is told by what is written of it: names are names, attributes have different
names, texts are not blank, and no two of them meet. -/
def Content.WellFormed : Content → Prop
  | .text value => isAllBlank value = false
  | .element name attributes content =>
    IsName name ∧ WellNamed attributes ∧ textsApart content = true ∧ AllWellFormed content

def AllWellFormed : List Content → Prop
  | [] => True
  | c :: rest => c.WellFormed ∧ AllWellFormed rest

end

theorem textsApart_tail {c : Content} {rest : List Content} (h : textsApart (c :: rest) = true) :
    textsApart rest = true := by
  cases rest with
  | nil => rfl
  | cons d rest =>
    simp only [textsApart, Bool.and_eq_true] at h
    exact h.2

theorem isText_head_of_textsApart {value : String} {rest : List Content}
    (h : textsApart (.text value :: rest) = true) : rest.head?.any Content.isText = false := by
  cases rest with
  | nil => rfl
  | cons d rest =>
    simp only [textsApart, Content.isText, Bool.true_and, Bool.and_eq_true,
      Bool.not_eq_true'] at h
    exact h.1

mutual

/-- An element that is written is read back and added to what has been read. -/
theorem resume_written {p q : Progress} {name : String} {attributes : List Attribute}
    {content : List Content} (h : (Content.element name attributes content).WellFormed)
    (hf : p.flush = .ok q) (room : q.opened ≠ [] ∨ q.top = []) (rest : List Char) :
    p.resume ((Content.element name attributes content).written ++ rest) =
      (q.add (.element name attributes content)).resume rest := by
  obtain ⟨hn, ha, hapart, hall⟩ := h
  have hempty : (q.inside name attributes).run = [] := by
    show q.run = []
    exact Progress.run_flush hf
  exact Progress.resume_elementText hf room hn ha
    (reads_writtenAll hall hapart (Progress.flush_of_nil hempty) (by simp [Progress.inside])
      (fun _ => hempty)) rest

/-- Neighbours are read in order. A text before them may still be in the run, as long as they begin
with an element. -/
theorem reads_writtenAll {p q : Progress} {content : List Content} (h : AllWellFormed content)
    (apart : textsApart content = true) (hf : p.flush = .ok q) (room : q.opened ≠ [])
    (hrun : content.head?.any Content.isText = true → p.run = []) :
    p.Reads (writtenAll content) (q.addAll content) := by
  cases content with
  | nil => exact Progress.reads_nil hf
  | cons c rest =>
    obtain ⟨hc, hrest⟩ := h
    have hroom : (q.add c).opened ≠ [] := by
      cases ho : q.opened <;> simp_all [Progress.add]
    cases c with
    | text value =>
      -- No text stands before this one, so that it begins the run.
      have hempty : p.run = [] := hrun rfl
      have hq : p = q := by
        rw [Progress.flush_of_nil hempty] at hf
        cases hf
        rfl
      subst hq
      have hflush : (p.gather value.toList).flush = .ok (p.add (.text value)) := by
        rw [Progress.flush_gather_of_text hempty hc room, String.ofList_toList]
      have htail := reads_writtenAll hrest (textsApart_tail apart) hflush hroom (by
        simp [isText_head_of_textsApart apart])
      exact htail.of_resume fun s => by
        rw [Content.written, escape, String.toList_ofList, Progress.resume_escaped]
    | element name attributes inner =>
      have hempty : (q.add (.element name attributes inner)).run = [] := by
        rw [Progress.run_add, Progress.run_flush hf]
      have htail := reads_writtenAll hrest (textsApart_tail apart) (Progress.flush_of_nil hempty)
        hroom (fun _ => hempty)
      exact htail.of_resume (resume_written hc hf (.inl room))

end

/-- A written element is read as the document that holds this element and nothing else, with its
nodes numbered in the order in which they were written. -/
theorem parse_written {name : String} {attributes : List Attribute} {content : List Content}
    (h : (Content.element name attributes content).WellFormed) :
    ∃ d, Document.parse (String.ofList (Content.element name attributes content).written) = .ok d ∧
      d.IsNumberingOf (.element name attributes content) := by
  have hresume := resume_written (p := .start) h (Progress.flush_of_nil rfl) (.inr rfl) []
  rw [List.append_nil] at hresume
  have hread : readContent (String.ofList (Content.element name attributes content).written) =
      .ok [.element name attributes content] :=
    readContent_of_resume (String.toList_ofList ..) (by decide) hresume
  refine ⟨.ofContent [.element name attributes content], ?_, isNumberingOf_ofContent _⟩
  rw [Document.parse, hread]
  rfl

/-- Values and texts that consist of markup, between elements without and with content. -/
theorem parse_written_nested :
    (Content.element "a" [⟨"k", "<\"&>"⟩, ⟨"l", " "⟩]
      [.text "'&amp;", .element "b" [] [], .element "b" [] [.text "</b>"], .text "."]).WellFormed ∧
    ∃ d, Document.parse (String.ofList (Content.element "a" [⟨"k", "<\"&>"⟩, ⟨"l", " "⟩]
      [.text "'&amp;", .element "b" [] [], .element "b" [] [.text "</b>"], .text "."]).written) =
        .ok d ∧
      d.IsNumberingOf (.element "a" [⟨"k", "<\"&>"⟩, ⟨"l", " "⟩]
        [.text "'&amp;", .element "b" [] [], .element "b" [] [.text "</b>"], .text "."]) := by
  have h : (Content.element "a" [⟨"k", "<\"&>"⟩, ⟨"l", " "⟩]
      [.text "'&amp;", .element "b" [] [], .element "b" [] [.text "</b>"], .text "."]).WellFormed := by
    refine ⟨by decide, ⟨by decide, by decide⟩, by decide, ?_⟩
    refine ⟨(by decide : isAllBlank "'&amp;" = false), ?_, ?_, (by decide : isAllBlank "." = false),
      trivial⟩
    · exact ⟨by decide, wellNamed_nil, rfl, trivial⟩
    · exact ⟨by decide, wellNamed_nil, rfl, (by decide : isAllBlank "</b>" = false), trivial⟩
  exact ⟨h, parse_written h⟩

end ComputedField.Markup
