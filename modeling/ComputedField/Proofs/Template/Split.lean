import ComputedField.Template.Placeholder

/-!
# Templates cut at their placeholders

Every text falls in one and only one way into placeholders and the texts between them, if an opening
brace may stand between placeholders only where it opens none. That way is said here without scanning,
and the scan finds it.
-/

namespace ComputedField.Template

/-- A text that leads, and placeholders, each by its inside and the text behind it. -/
structure Split where
  lead : List Char
  spans : List (List Char × List Char)

/-- Placeholders in their braces, each with the text behind it. -/
def spansText : List (List Char × List Char) → List Char
  | [] => []
  | (inner, after) :: rest => '{' :: (inner ++ '}' :: (after ++ spansText rest))

/-- Whether an opening brace in front of the text opens no placeholder: the next character closes it,
or none does. -/
def OpensNone (s : List Char) : Prop := s.head? = some '}' ∨ '}' ∉ s

/-- Whether no brace of a text opens a placeholder, when `rest` comes behind it. -/
def IsPlain (text rest : List Char) : Prop :=
  ∀ before behind, text = before ++ '{' :: behind → OpensNone (behind ++ rest)

/-- Whether a text and the placeholders behind it are what they are said to be. -/
def Separates (lead : List Char) : List (List Char × List Char) → Prop
  | [] => IsPlain lead []
  | (inner, after) :: rest =>
    IsPlain lead (spansText ((inner, after) :: rest)) ∧ inner ≠ [] ∧ '}' ∉ inner ∧ Separates after rest

namespace Split

def text (s : Split) : List Char := s.lead ++ spansText s.spans

def IsOf (s : Split) (template : List Char) : Prop :=
  s.text = template ∧ Separates s.lead s.spans

def pieces (s : Split) : List Piece :=
  s.lead.map .plain ++ s.spans.flatMap fun (inner, after) => .placeholder inner :: after.map .plain

def inners (s : Split) : List (List Char) := s.spans.map (·.1)

/-- The text with placeholders replaced. -/
def filled (s : Split) (value : List Char → List Char) : List Char :=
  s.lead ++ s.spans.flatMap fun (inner, after) => value inner ++ after

def addPlain (s : Split) (c : Char) : Split := ⟨c :: s.lead, s.spans⟩

def addPlaceholder (s : Split) (inner : List Char) : Split := ⟨[], (inner, s.lead) :: s.spans⟩

end Split

section Plain

variable {inner after rest s : List Char} {c : Char}

theorem isPlain_nil (rest : List Char) : IsPlain [] rest := by
  intro before behind h
  cases before <;> cases h

/-- A brace comes first in the text, or in what follows its first character. -/
theorem isPlain_cons_iff :
    IsPlain (c :: s) rest ↔ (c = '{' → OpensNone (s ++ rest)) ∧ IsPlain s rest := by
  constructor
  · intro h
    refine ⟨fun hc => h [] s (by rw [hc]; rfl), fun before behind hs => ?_⟩
    exact h (c :: before) behind (by rw [hs]; rfl)
  · rintro ⟨hc, hs⟩ before behind h
    cases before with
    | nil =>
      cases h
      exact hc rfl
    | cons d before =>
      cases h
      exact hs before behind rfl

theorem notClosing_of_not_mem (h : '}' ∉ s) : ∀ c ∈ s, notClosing c = true := by
  intro c hc
  have hne : c ≠ '}' := fun he => h (he ▸ hc)
  simp [notClosing, hne]

/-- A placeholder ends with the first closing brace. -/
theorem placeholderAt?_append (hne : inner ≠ []) (hinner : '}' ∉ inner) (after : List Char) :
    placeholderAt? (inner ++ '}' :: after) = some (inner, after) := by
  have hall := notClosing_of_not_mem hinner
  have htake : (inner ++ '}' :: after).takeWhile notClosing = inner := by
    rw [List.takeWhile_append_of_pos hall]
    simp [notClosing]
  have hdrop : (inner ++ '}' :: after).dropWhile notClosing = '}' :: after := by
    rw [List.dropWhile_append_of_pos hall]
    simp [notClosing]
  simp [placeholderAt?, htake, hdrop, hne]

/-- The inside of a placeholder has no closing brace, and is not empty. -/
theorem of_placeholderAt?_eq_some (h : placeholderAt? s = some (inner, after)) :
    s = inner ++ '}' :: after ∧ inner ≠ [] ∧ '}' ∉ inner := by
  have hs : s.takeWhile notClosing ++ s.dropWhile notClosing = s := List.takeWhile_append_dropWhile
  simp only [placeholderAt?] at h
  split at h
  · cases h
  · rename_i d tail hd
    split at h
    · cases h
    · rename_i hempty
      cases h
      have hclosing := List.head_dropWhile_not notClosing (l := s) (by simp [hd])
      have hmem : '}' ∉ s.takeWhile notClosing := by
        intro hm
        have hall := List.all_eq_true.mp (List.all_takeWhile (p := notClosing) (l := s)) _ hm
        simp [notClosing] at hall
      simp only [hd, List.head_cons, notClosing, bne_eq_false_iff_eq] at hclosing
      refine ⟨?_, by simpa using hempty, hmem⟩
      rw [hd, hclosing] at hs
      exact hs.symm

/-- An opening brace opens a placeholder unless nothing, or nothing closed, follows. -/
theorem placeholderAt?_eq_none_iff : placeholderAt? s = none ↔ OpensNone s := by
  constructor
  · intro h
    by_cases hmem : '}' ∈ s
    · left
      obtain ⟨inner, after, rfl, hinner⟩ := List.eq_append_cons_of_mem hmem
      by_cases hne : inner = []
      · rw [hne]
        rfl
      · rw [placeholderAt?_append hne hinner] at h
        cases h
    · exact .inr hmem
  · intro h
    cases hp : placeholderAt? s with
    | none => rfl
    | some p =>
      obtain ⟨rfl, hne, hinner⟩ := of_placeholderAt?_eq_some hp
      rcases h with h | h
      · cases hi : p.1 with
        | nil => exact absurd hi hne
        | cons d tail => simp_all
      · simp at h

end Plain

section Pieces

variable {inner : List Char} {c : Char}

theorem pieces_plain (rest : List Char) (h : c = '{' → OpensNone rest) :
    pieces (c :: rest) = .plain c :: pieces rest := by
  rw [pieces]
  split
  · rename_i hc
    have hnone := placeholderAt?_eq_none_iff.mpr (h hc)
    split
    · rename_i hsome
      rw [hnone] at hsome
      cases hsome
    · rfl
  · rfl

theorem pieces_placeholder (hne : inner ≠ []) (hinner : '}' ∉ inner) (after : List Char) :
    pieces ('{' :: (inner ++ '}' :: after)) = .placeholder inner :: pieces after := by
  have hsome := placeholderAt?_append hne hinner after
  rw [pieces, if_pos rfl]
  split
  · rename_i h
    rw [hsome] at h
    cases h
    rfl
  · rename_i h
    rw [hsome] at h
    cases h

/-- Plain text in front is passed over character by character. -/
theorem pieces_append (lead rest : List Char) (h : IsPlain lead rest) :
    pieces (lead ++ rest) = lead.map .plain ++ pieces rest := by
  induction lead with
  | nil => rfl
  | cons c lead ih =>
    obtain ⟨hc, hlead⟩ := isPlain_cons_iff.mp h
    rw [List.cons_append, pieces_plain _ hc, ih hlead]
    rfl

end Pieces

/-- The scan finds the placeholders of a text that is cut at them. -/
theorem pieces_text (lead : List Char) (spans : List (List Char × List Char))
    (h : Separates lead spans) : pieces (Split.text ⟨lead, spans⟩) = Split.pieces ⟨lead, spans⟩ := by
  induction spans generalizing lead with
  | nil =>
    rw [Split.text, spansText, pieces_append lead [] h]
    simp [Split.pieces, pieces]
  | cons span rest ih =>
    obtain ⟨hlead, hne, hinner, hrest⟩ := h
    have hafter := ih _ hrest
    simp only [Split.text, Split.pieces] at hafter
    rw [Split.text, pieces_append lead _ hlead, spansText, pieces_placeholder hne hinner, hafter]
    rfl

def splitOf : List Piece → Split
  | [] => ⟨[], []⟩
  | .plain c :: rest => (splitOf rest).addPlain c
  | .placeholder inner :: rest => (splitOf rest).addPlaceholder inner

theorem splitOf_plain (text : List Char) (ps : List Piece) :
    splitOf (text.map .plain ++ ps) = ⟨text ++ (splitOf ps).lead, (splitOf ps).spans⟩ := by
  induction text with
  | nil => rfl
  | cons c text ih =>
    rw [List.map_cons, List.cons_append, splitOf, ih]
    rfl

/-- A split can be told from its pieces. -/
theorem splitOf_pieces (s : Split) : splitOf s.pieces = s := by
  obtain ⟨lead, spans⟩ := s
  have hspans : splitOf (spans.flatMap fun (inner, after) => .placeholder inner :: after.map .plain) =
      ⟨[], spans⟩ := by
    induction spans with
    | nil => rfl
    | cons span rest ih =>
      rw [List.flatMap_cons, List.cons_append, splitOf, splitOf_plain, ih, List.append_nil]
      rfl
  rw [Split.pieces, splitOf_plain, hspans, List.append_nil]

theorem pieces_splitOf (ps : List Piece) : (splitOf ps).pieces = ps := by
  induction ps with
  | nil => rfl
  | cons p rest ih =>
    cases p with
    | plain c => exact congrArg (Piece.plain c :: ·) ih
    | placeholder inner => exact congrArg (Piece.placeholder inner :: ·) ih

section Cut

variable {s : Split} {inner after rest : List Char} {c : Char}

/-- A character that opens nothing may be put in front. -/
theorem Split.IsOf.addPlain (h : s.IsOf rest) (hc : c = '{' → OpensNone rest) :
    (s.addPlain c).IsOf (c :: rest) := by
  obtain ⟨lead, spans⟩ := s
  obtain ⟨rfl, hs⟩ := h
  refine ⟨rfl, ?_⟩
  cases spans with
  | nil => exact isPlain_cons_iff.mpr ⟨by simpa [Split.text, spansText] using hc, hs⟩
  | cons span spans => exact ⟨isPlain_cons_iff.mpr ⟨hc, hs.1⟩, hs.2⟩

theorem Split.IsOf.addPlaceholder (h : s.IsOf after) (hne : inner ≠ []) (hinner : '}' ∉ inner) :
    (s.addPlaceholder inner).IsOf ('{' :: (inner ++ '}' :: after)) := by
  obtain ⟨rfl, hs⟩ := h
  exact ⟨rfl, isPlain_nil _, hne, hinner, hs⟩

/-- What the scan finds cuts the text. -/
theorem isOf_splitOf (template : List Char) : (splitOf (pieces template)).IsOf template := by
  fun_induction pieces template with
  | case1 => exact ⟨rfl, isPlain_nil []⟩
  | case2 rest inner after h _ ih =>
    obtain ⟨rfl, hne, hinner⟩ := of_placeholderAt?_eq_some h
    exact ih.addPlaceholder hne hinner
  | case3 rest h ih => exact ih.addPlain fun _ => placeholderAt?_eq_none_iff.mp h
  | case4 c rest hc ih => exact ih.addPlain fun h => absurd h hc

/-- There is no other way to cut a text at its placeholders. -/
theorem eq_splitOf_of_isOf {template : List Char} (h : s.IsOf template) :
    s = splitOf (pieces template) := by
  obtain ⟨rfl, hs⟩ := h
  rw [pieces_text _ _ hs, splitOf_pieces]

end Cut

end ComputedField.Template
