import Mathlib.Data.List.Forall2
import ComputedField.Markup.Output
import ComputedField.Proofs.Markup.Resume
import ComputedField.Proofs.Markup.StringValue

/-!
# Written elements read back

Elements with escaped values, written one after the other inside a document element, are read as its
children: in the same order, each with its name, its handle and its value. Only a blank value is
lost.
-/

namespace ComputedField.Markup

open Text

namespace OutputElement

def ofText (name : String) (handle : Option String) (text : String) : OutputElement :=
  ⟨name, handle, escape text⟩

def attributes (e : OutputElement) : List Attribute :=
  (e.handle.map fun handle => ⟨"handle", handle⟩).toList

theorem wellNamed_attributes (e : OutputElement) : WellNamed e.attributes := by
  cases h : e.handle with
  | none => exact ⟨by simp [attributes, h], by simp [attributes, h]⟩
  | some handle =>
    refine ⟨?_, by simp [attributes, h]⟩
    have hn : IsName "handle" := by decide
    simpa [attributes, h] using hn

theorem toList_write (e : OutputElement) :
    e.write.toList = elementText e.name e.attributes e.value.toList := by
  cases h : e.handle <;>
    simp [write, startTag, elementText, tagText, attributes, h, Attribute.written]

end OutputElement

/-- What is read between the tags of an element whose value is the given text, escaped. -/
def valueContent (text : String) : List Content := if isAllBlank text then [] else [.text text]

theorem charactersOf_valueContent (text : String) :
    charactersOf (valueContent text) = if isAllBlank text then "" else text := by
  unfold valueContent
  split <;> simp [charactersOf, Content.characters]

/-- What is read by adding characters to an empty run is the content that these characters make. -/
theorem Progress.reads_run {p : Progress} (hp : p.run = []) (room : p.opened ≠ []) {s text : List Char}
    (h : ∀ rest, p.resume (s ++ rest) = (p.gather text).resume rest) :
    p.Reads s (p.addAll (valueContent (String.ofList text))) := by
  refine ⟨p.gather text, ?_, h⟩
  cases hb : text.all isBlank with
  | true =>
    rw [valueContent, isAllBlank, String.toList_ofList, if_pos hb]
    exact flush_gather_of_blank hp hb
  | false =>
    rw [flush_gather_of_text hp hb room, valueContent, isAllBlank, String.toList_ofList, hb]
    rfl

theorem Progress.reads_value {p : Progress} (hp : p.run = []) (room : p.opened ≠ [])
    (text : String) : p.Reads (escape text).toList (p.addAll (valueContent text)) := by
  have h := reads_run hp room (resume_escaped text.toList)
  rw [String.ofList_toList] at h
  rw [escape, String.toList_ofList]
  exact h

/-- A text with the name and the handle of the element that it is the value of. -/
structure Item where
  name : String
  handle : Option String
  text : String
  deriving DecidableEq, Repr

namespace Item

def output (i : Item) : OutputElement := .ofText i.name i.handle i.text

def content (i : Item) : Content := .element i.name i.output.attributes (valueContent i.text)

/-- The node `n` is an element with the name, the handle and the text of an item. -/
structure ShownAt (i : Item) (d : Document) (n : NodeId) : Prop where
  kind : d.kind? n = some .element
  name : d.name n = i.name
  attributes : match i.handle with
    | none => d.attributes n = []
    | some handle => ∃ a, d.attributes n = [a] ∧ d.kind? a = some .attribute ∧
        d.name a = "handle" ∧ d.stringValue a = handle
  value : d.stringValue n = if isAllBlank i.text then "" else i.text

end Item

/-- Elements that are written one behind the other are read back in their order. -/
theorem Progress.reads_items {p : Progress} (hp : p.run = []) (room : p.opened ≠ [])
    {items : List Item} (names : ∀ i ∈ items, IsName i.name) :
    p.Reads (writeElements (items.map Item.output)).toList (p.addAll (items.map Item.content)) := by
  induction items generalizing p with
  | nil => exact reads_nil (flush_of_nil hp)
  | cons i rest ih =>
    have hadd : (p.add i.content).opened ≠ [] := by
      cases ho : p.opened <;> simp_all [add]
    have htail := ih (p := p.add i.content) (by rw [run_add, hp]) hadd
      fun j hj => names j (by simp [hj])
    have hwrite : (writeElements ((i :: rest).map Item.output)).toList =
        i.output.write.toList ++ (writeElements (rest.map Item.output)).toList := by
      simp [writeElements]
    rw [hwrite]
    refine htail.of_resume fun s => ?_
    rw [OutputElement.toList_write]
    have hvalue := reads_value (p := p.inside i.output.name i.output.attributes) hp
      (by simp [inside]) i.text
    exact resume_elementText (flush_of_nil hp) (.inl room) (names i (by simp))
      i.output.wellNamed_attributes hvalue s

/-- The node of an element shows the item that it was written for. -/
theorem Numbered.shownAt {d : Document} {parent first next : Nat} {i : Item}
    (h : Numbered d parent first i.content next) (inside : next ≤ d.size) : i.ShownAt d first := by
  have hvalue := h.stringValue inside
  cases h with
  | element node owned inner =>
    refine ⟨kind?_of_node node, name_of_node node, ?_, ?_⟩
    · cases hh : i.handle with
      | none => simp [attributes_of_node node, OutputElement.attributes, Item.output,
          OutputElement.ofText, hh]
      | some handle =>
        have ha : i.output.attributes[0]? = some ⟨"handle", handle⟩ := by
          simp [OutputElement.attributes, Item.output, OutputElement.ofText, hh]
        have hnode := owned 0 _ ha
        refine ⟨first + 1, ?_, kind?_of_node hnode, name_of_node hnode, ?_⟩
        · simp [attributes_of_node node, OutputElement.attributes, Item.output,
            OutputElement.ofText, hh]
        · simp only [Nat.add_zero] at hnode
          simp [Document.stringValue, hnode]
    · rw [hvalue, Item.content, Content.characters, charactersOf_valueContent]

theorem NumberedAll.shownAt {d : Document} {parent first next : Nat} {ids : List Nat}
    {items : List Item} (h : NumberedAll d parent first (items.map Item.content) ids next)
    (inside : next ≤ d.size) : List.Forall₂ (fun n i => i.ShownAt d n) ids items := by
  induction items generalizing first ids with
  | nil =>
    cases h
    exact .nil
  | cons i rest ih =>
    cases h with
    | cons head tail =>
      have := tail.le
      exact .cons (head.shownAt (by omega)) (ih tail)

/-- Items written inside a document element are its children, one for one. -/
theorem parse_writeElements {items : List Item} (names : ∀ i ∈ items, IsName i.name) :
    ∃ d n, Document.parse ("<data>" ++ writeElements (items.map Item.output) ++ "</data>") = .ok d ∧
      d.documentElement? = some n ∧ d.name n = "data" ∧
      List.Forall₂ (fun child i => i.ShownAt d child) (d.children n) items := by
  have hn : IsName "data" := by decide
  have hbody := Progress.reads_items (p := Progress.start.inside "data" []) rfl
    (by simp [Progress.inside]) names
  have hresume := Progress.resume_elementText (Progress.flush_of_nil rfl) (.inr rfl) hn wellNamed_nil
    hbody []
  rw [List.append_nil] at hresume
  have htext : ("<data>" ++ writeElements (items.map Item.output) ++ "</data>").toList =
      elementText "data" [] (writeElements (items.map Item.output)).toList := by
    simp [elementText, tagText]
  have hread : readContent ("<data>" ++ writeElements (items.map Item.output) ++ "</data>") =
      .ok [.element "data" [] (items.map Item.content)] :=
    readContent_of_resume htext (by decide) hresume
  obtain ⟨hroot, hcontent⟩ := isNumberingOf_ofContent (.element "data" [] (items.map Item.content))
  refine ⟨.ofContent [.element "data" [] (items.map Item.content)], 1, ?_, ?_, ?_⟩
  · rw [Document.parse, hread]
    rfl
  · simp [Document.documentElement?, children_of_node hroot]
  · cases hcontent with
    | element node owned inner =>
      rw [name_of_node node, children_of_node node]
      exact ⟨rfl, inner.shownAt (Nat.le_refl _)⟩

/-- Two elements of one name, the first with a value and a handle that consist of markup, the second
blank and without a handle. -/
theorem parse_writeElements_pair :
    (∀ i ∈ [(⟨"b", some "\"<&'>", "</b>&"⟩ : Item), ⟨"b", none, " \n"⟩], IsName i.name) ∧
    ∃ d n, Document.parse ("<data>" ++ writeElements
        ([(⟨"b", some "\"<&'>", "</b>&"⟩ : Item), ⟨"b", none, " \n"⟩].map Item.output) ++ "</data>") =
          .ok d ∧
      d.documentElement? = some n ∧ d.name n = "data" ∧
      List.Forall₂ (fun child i => i.ShownAt d child) (d.children n)
        [(⟨"b", some "\"<&'>", "</b>&"⟩ : Item), ⟨"b", none, " \n"⟩] := by
  have h : ∀ i ∈ [(⟨"b", some "\"<&'>", "</b>&"⟩ : Item), ⟨"b", none, " \n"⟩], IsName i.name := by
    decide
  exact ⟨h, parse_writeElements h⟩

end ComputedField.Markup
