import ComputedField.Markup.Reader
import ComputedField.Proofs.Markup.Tag

/-!
# Reading on

What is read from a text depends on the text before it only through the progress made there. So a
text is read piece by piece: `resume` says what comes of the text ahead, and there is one equation
for each written piece, which holds whatever follows the piece.
-/

namespace ComputedField.Markup

open Text

namespace Progress

/-- What comes of the text ahead after the progress made so far. -/
def resume (p : Progress) (s : List Char) : Except Error (List Content) := do
  let q ← p.steps (tokens s).1
  match (tokens s).2 with
  | some fault => .error (.markup fault)
  | none => q.finish

def gather (p : Progress) (s : List Char) : Progress := { p with run := p.run ++ s }

/-- Adds pieces of content to the innermost open element, one after the other. -/
def addAll (p : Progress) (content : List Content) : Progress := content.foldl add p

def inside (p : Progress) (name : String) (attributes : List Attribute) : Progress :=
  { p with opened := ⟨name, attributes, []⟩ :: p.opened }

variable {p q : Progress}

@[simp] theorem gather_nil (p : Progress) : p.gather [] = p := by
  simp [gather]

@[simp] theorem gather_gather (p : Progress) (s t : List Char) :
    (p.gather s).gather t = p.gather (s ++ t) := by
  simp [gather]

@[simp] theorem run_gather (p : Progress) (s : List Char) : (p.gather s).run = p.run ++ s := rfl

@[simp] theorem opened_gather (p : Progress) (s : List Char) : (p.gather s).opened = p.opened := rfl

@[simp] theorem run_add (p : Progress) (c : Content) : (p.add c).run = p.run := by
  unfold add
  split <;> rfl

end Progress

theorem tokens_nil : tokens [] = ([], none) := by
  rw [tokens]

theorem tokens_of_scan {c : Char} {rest after : List Char} {t : Token}
    (h : scan c rest = .ok (t, after)) :
    tokens (c :: rest) = (t :: (tokens after).1, (tokens after).2) := by
  rw [tokens]
  split
  · rename_i fault herror
    simp [h] at herror
  · rename_i u tail hok
    rw [h] at hok
    cases hok
    rfl

theorem scan_of_isPlain {c : Char} {s : List Char} (h : isPlain c = true) :
    scan c s = .ok (.text (c :: s.takeWhile isPlain), s.dropWhile isPlain) := by
  simp only [isPlain, Bool.and_eq_true, bne_iff_ne] at h
  rw [scan, if_neg h.1, if_neg h.2]

namespace Progress

variable {p q : Progress}

theorem resume_of_scan {c : Char} {rest after : List Char} {t : Token}
    (h : scan c rest = .ok (t, after)) :
    p.resume (c :: rest) = (p.step t).bind fun q => q.resume after := by
  simp only [resume, tokens_of_scan h, steps]
  cases p.step t <;> rfl

/-- Plain characters may be read one by one, although they are cut off together. -/
theorem resume_plain {c : Char} (h : isPlain c = true) (s : List Char) :
    p.resume (c :: s) = (p.gather [c]).resume s := by
  rw [resume_of_scan (scan_of_isPlain h)]
  cases s with
  | nil => rfl
  | cons d rest =>
    by_cases hd : isPlain d = true
    · rw [resume_of_scan (scan_of_isPlain hd)]
      simp only [step, List.takeWhile_cons, List.dropWhile_cons, hd, if_true]
      show (p.gather (c :: d :: rest.takeWhile isPlain)).resume _ =
        ((p.gather [c]).gather (d :: rest.takeWhile isPlain)).resume _
      rw [gather_gather, List.singleton_append]
    · simp only [step, List.takeWhile_cons, List.dropWhile_cons, hd]
      rfl

theorem resume_scanReference {name s after : List Char}
    (hs : scanReference s = .ok (name, after)) :
    p.resume ('&' :: s) = (resolveInText name).bind fun c => (p.gather [c]).resume after := by
  have hscan : scan '&' s = .ok (.reference name, after) := by
    rw [scan, if_neg (by decide), if_pos rfl, hs]
    rfl
  rw [resume_of_scan hscan, step]
  cases resolveInText name <;> rfl

theorem resume_reference {name : List Char} {c : Char} {s after : List Char}
    (hs : scanReference s = .ok (name, after)) (hc : resolveInText name = .ok c) :
    p.resume ('&' :: s) = (p.gather [c]).resume after := by
  rw [resume_scanReference hs, hc]
  rfl

theorem resume_escapeChar (c : Char) (s : List Char) :
    p.resume (escapeChar c ++ s) = (p.gather [c]).resume s := by
  unfold escapeChar
  split
  case h_6 hlt hgt hamp hapos hquot =>
    apply resume_plain
    simp only [isPlain, Bool.and_eq_true, bne_iff_ne]
    exact ⟨hlt, hamp⟩
  all_goals exact resume_reference rfl rfl

/-- An escaped text is read as the text itself. -/
theorem resume_escaped (text s : List Char) :
    p.resume (text.flatMap escapeChar ++ s) = (p.gather text).resume s := by
  induction text generalizing p with
  | nil => rw [List.flatMap_nil, List.nil_append, gather_nil]
  | cons c rest ih =>
    rw [List.flatMap_cons, List.append_assoc, resume_escapeChar, ih, gather_gather,
      List.singleton_append]

section Flushing

theorem flush_of_blank (h : p.run.all isBlank = true) : p.flush = .ok { p with run := [] } := by
  rw [flush, if_pos h]

theorem flush_of_nil (h : p.run = []) : p.flush = .ok p := by
  rw [flush_of_blank (by simp [h]), ← h]

theorem flush_gather_of_blank {text : List Char} (hp : p.run = [])
    (h : text.all isBlank = true) : (p.gather text).flush = .ok p := by
  have hrun : (p.gather text).run = text := by rw [run_gather, hp, List.nil_append]
  rw [flush_of_blank (by rw [hrun, h]), ← hp]
  rfl

theorem flush_gather_of_text {text : List Char} (hp : p.run = []) (h : text.all isBlank = false)
    (room : p.opened ≠ []) :
    (p.gather text).flush = .ok (p.add (.text (String.ofList text))) := by
  have hrun : (p.gather text).run = text := by rw [run_gather, hp, List.nil_append]
  have hopened : (p.gather text).opened.isEmpty = false := by simpa using room
  rw [flush, hrun, hopened, if_neg (by simp [h]), if_neg (by decide), ← hp]
  rfl

theorem run_flush (h : p.flush = .ok q) : q.run = [] := by
  unfold flush at h
  split at h
  · cases h
    rfl
  · split at h
    · cases h
    · cases h
      rw [run_add]

/-- Ending the run opens and closes nothing. -/
theorem opened_flush (h : p.flush = .ok q) :
    p.opened.map (·.name) = q.opened.map (·.name) := by
  unfold flush at h
  split at h
  · cases h
    rfl
  · split at h
    · cases h
    · cases h
      cases p.opened <;> simp [add]

end Flushing

theorem addAll_inside (p : Progress) (name : String) (attributes : List Attribute)
    (content before : List Content) :
    ({ p with opened := ⟨name, attributes, before⟩ :: p.opened } : Progress).addAll content =
      { p with opened := ⟨name, attributes, content.reverse ++ before⟩ :: p.opened } := by
  induction content generalizing before with
  | nil => rfl
  | cons c rest ih =>
    rw [List.reverse_cons, List.append_assoc, List.singleton_append, ← ih (c :: before)]
    rfl

section Tags

variable {name : String} {attributes : List Attribute}

theorem resume_startTag (hf : p.flush = .ok q) (room : q.opened ≠ [] ∨ q.top = [])
    (hn : IsName name) (ha : WellNamed attributes) (s : List Char) :
    p.resume ('<' :: (tagText name attributes ++ '>' :: s)) =
      (q.inside name attributes).resume s := by
  have hscan : scan '<' (tagText name attributes ++ '>' :: s) =
      .ok (.startTag (tagText name attributes), s) := by
    rw [scan, if_pos rfl, scanMarkup_startTag hn ha]
  have henter : q.enter (tagText name attributes) = .ok (name, attributes) := by
    have hroom : (q.opened.isEmpty && !q.top.isEmpty) = false := by
      rcases room with h | h <;> simp [h]
    rw [enter, hroom, attributesOf_tagText hn ha, tagName_tagText hn]
    simp [Except.map]
  have hstep : p.step (.startTag (tagText name attributes)) = .ok (q.inside name attributes) := by
    simp only [step, hf, bind, Except.bind, henter]
    rfl
  rw [resume_of_scan hscan, hstep]
  rfl

theorem resume_endTag (hf : p.flush = .ok q) (hopen : q.opened.head?.map (·.name) = some name)
    (hn : IsName name) (s : List Char) :
    p.resume ('<' :: '/' :: (name.toList ++ '>' :: s)) = q.leave.resume s := by
  have hscan : scan '<' ('/' :: (name.toList ++ '>' :: s)) = .ok (.endTag name.toList, s) := by
    rw [scan, if_pos rfl, scanMarkup_endTag hn]
  have hstep : p.step (.endTag name.toList) = .ok q.leave := by
    have hp : p.opened.head?.map (·.name) = some name := by
      rw [← List.head?_map, opened_flush hf, List.head?_map, hopen]
    cases ho : p.opened with
    | nil => simp [ho] at hp
    | cons e outer =>
      have he : e.name = name := by simpa [ho] using hp
      simp [step, ho, he, hf, Except.map]
  rw [resume_of_scan hscan, hstep]
  rfl

end Tags

/-- Whatever follows it, the text `s` is read so that `q` is reached once the run has ended. -/
def Reads (p : Progress) (s : List Char) (q : Progress) : Prop :=
  ∃ r : Progress, r.flush = .ok q ∧ ∀ rest, p.resume (s ++ rest) = r.resume rest

theorem reads_nil (h : p.flush = .ok q) : p.Reads [] q := ⟨p, h, fun _ => rfl⟩

theorem Reads.of_resume {s t : List Char} (h : q.Reads t r)
    (hs : ∀ rest, p.resume (s ++ rest) = q.resume rest) : p.Reads (s ++ t) r := by
  obtain ⟨u, hu, hr⟩ := h
  refine ⟨u, hu, fun rest => ?_⟩
  rw [List.append_assoc, hs, hr]

end Progress

def elementText (name : String) (attributes : List Attribute) (body : List Char) : List Char :=
  '<' :: tagText name attributes ++ '>' :: body ++ '<' :: '/' :: name.toList ++ ['>']

/-- An element is read as soon as its inside is. -/
theorem Progress.resume_elementText {p q : Progress} {name : String} {attributes : List Attribute}
    {body : List Char} {content : List Content} (hf : p.flush = .ok q)
    (room : q.opened ≠ [] ∨ q.top = []) (hn : IsName name) (ha : WellNamed attributes)
    (hbody : (q.inside name attributes).Reads body ((q.inside name attributes).addAll content))
    (rest : List Char) :
    p.resume (elementText name attributes body ++ rest) =
      (q.add (.element name attributes content)).resume rest := by
  obtain ⟨r, hr, hresume⟩ := hbody
  have hinside : (q.inside name attributes).addAll content =
      { q with opened := ⟨name, attributes, content.reverse⟩ :: q.opened } := by
    rw [← List.append_nil content.reverse]
    exact addAll_inside q name attributes content []
  rw [hinside] at hr
  have htext : elementText name attributes body ++ rest =
      '<' :: (tagText name attributes ++ '>' :: (body ++ '<' :: '/' :: (name.toList ++ '>' :: rest)))
      := by simp [elementText]
  rw [htext, resume_startTag hf room hn ha, hresume, resume_endTag hr rfl hn]
  simp [leave]

theorem Progress.resume_nil (p : Progress) : p.resume [] = p.finish := by
  rw [Progress.resume, tokens_nil]
  rfl

theorem readContent_eq_resume {s : String} {c : Char} {rest : List Char}
    (hs : s.toList = c :: rest) (hc : c ≠ '\ufeff') :
    readContent s = Progress.start.resume (c :: rest) := by
  have hmark : withoutMark (c :: rest) = c :: rest := by
    unfold withoutMark
    split
    · rename_i heq
      cases heq
      exact absurd rfl hc
    · rfl
  rw [← hmark, ← hs]
  rfl

theorem readContent_of_resume {s : String} {c : Char} {rest : List Char} {p : Progress}
    (hs : s.toList = c :: rest) (hc : c ≠ '\ufeff')
    (h : Progress.start.resume (c :: rest) = p.resume []) : readContent s = p.finish := by
  rw [readContent_eq_resume hs hc, h, p.resume_nil]

end ComputedField.Markup
