import ComputedField.Proofs.Filter.Complement
import ComputedField.Proofs.Filter.Spelling
import ComputedField.Proofs.Text.Search

/-!
# What the first token decides

The first token of a filter may begin with a marker or be a numeric phrase, never both. The kind of the
filter is settled by which of these holds, and where none does, by whether every token counts.
-/

namespace ComputedField.Filter

open Text

/-- The token begins with `regexp:` in any case or with another word that marks a filter, perhaps negated. -/
inductive BeginsWithMarker : List Char → Prop where
  | regexp (negation : String) {spelled : List Char} (rest : List Char)
      (negated : negation ∈ ["", "not", "not-"])
      (spells : isFolded (negation ++ "regexp:").toList spelled = true) :
      BeginsWithMarker (spelled ++ rest)
  | word (negation : String) {word : String} (rest : List Char) (negated : negation ∈ ["", "not-"])
      (mem : word ∈ markerWords) :
      BeginsWithMarker (negation.toList ++ (word.toList ++ ':' :: rest))

/-- The token says nothing about the kind of its filter: it has no marker and is no numeric phrase. -/
def IsPlain (first : List Char) : Prop := ¬ BeginsWithMarker first ∧ ¬ IsNumericPhrase first

section Markers

variable {first rest : List Char} {others : List String} {kind : Kind}

theorem eq_minus_of_foldCase {c : Char} (h : foldCase c = '-') : c = '-' := by
  rw [foldCase] at h
  split at h
  · cases h
  · split at h
    · cases h
    · cases hupper : c.isUpper with
      | false => rwa [toLower_of_isUpper_eq_false hupper] at h
      | true =>
        have hlower := isLower_toLower hupper
        rw [h] at hlower
        cases hlower

theorem isFolded_append {word other spelled tail : List Char} (h : isFolded word spelled = true)
    (h' : isFolded other tail = true) : isFolded (word ++ other) (spelled ++ tail) = true := by
  rw [isFolded, beq_iff_eq] at *
  rw [List.map_append, h, h']

theorem exists_of_isFolded_append {word other spelled : List Char}
    (h : isFolded (word ++ other) spelled = true) :
    ∃ front back, spelled = front ++ back ∧ isFolded word front = true ∧ isFolded other back = true := by
  obtain ⟨front, back, rfl, hfront, hback⟩ := List.map_eq_append_iff.mp (beq_iff_eq.mp h)
  exact ⟨front, back, rfl, beq_iff_eq.mpr hfront, beq_iff_eq.mpr hback⟩

theorem exists_of_afterRegexp? (h : afterRegexp? first = some rest) :
    ∃ spelled tail, isFolded "regexp:".toList spelled = true ∧ first = spelled ++ tail := by
  obtain ⟨tail, hstrip, -⟩ := Option.map_eq_some_iff.mp h
  obtain ⟨spelled, hspelled, hfirst⟩ := append_of_stripFolded? hstrip
  exact ⟨spelled, tail, hspelled, hfirst⟩

theorem afterRegexp?_append {spelled : List Char} (h : isFolded "regexp:".toList spelled = true)
    (tail : List Char) : afterRegexp? (spelled ++ tail) = some (trimLeft tail) := by
  rw [afterRegexp?, stripFolded?_append h, Option.map_some]

/-- A regular expression is only looked for behind its marker. -/
theorem beginsWithMarker_of_regexMarker? {found : Bool × List Char}
    (h : regexMarker? first = some found) : BeginsWithMarker first := by
  rw [regexMarker?] at h
  split at h
  · rename_i hregexp
    obtain ⟨spelled, tail, hspelled, rfl⟩ := exists_of_afterRegexp? hregexp
    exact .regexp "" tail (by simp) hspelled
  · obtain ⟨after, hnot, hmap⟩ := Option.bind_eq_some_iff.mp h
    obtain ⟨tail, hregexp, -⟩ := Option.map_eq_some_iff.mp hmap
    obtain ⟨spelled, rest, hspelled, hafter⟩ := exists_of_afterRegexp? hregexp
    obtain ⟨negation, hnegation, rfl⟩ := append_of_stripFolded? hnot
    cases hdash : stripPrefix? ['-'] after with
    | none =>
      rw [hdash, Option.getD_none] at hafter
      rw [hafter, ← List.append_assoc]
      exact .regexp "not" rest (by simp) (isFolded_append hnegation hspelled)
    | some behind =>
      rw [hdash, Option.getD_some] at hafter
      rw [append_of_stripPrefix? hdash, hafter, ← List.append_assoc, ← List.append_assoc]
      have hminus : isFolded ['-'] ['-'] = true := rfl
      exact .regexp "not-" rest (by simp)
        (isFolded_append (isFolded_append hnegation hminus) hspelled)

/-- What is taken for a marker is one of the words with a colon behind it, perhaps negated. -/
theorem exists_of_marker? {words : List String} {negated : Bool} {word : String}
    (h : marker? words first = some (negated, word, rest)) :
    word ∈ words ∧ first = (if negated then "not-" else "").toList ++ (word.toList ++ ':' :: rest) := by
  have hafter {s : List Char} (hs : afterWord? words s = some (word, rest)) :
      word ∈ words ∧ s = word.toList ++ ':' :: rest := by
    obtain ⟨other, hmem, hfound⟩ := List.exists_of_findSome?_eq_some hs
    obtain ⟨tail, hstrip, heq⟩ := Option.map_eq_some_iff.mp hfound
    cases heq
    refine ⟨hmem, ?_⟩
    rw [append_of_stripPrefix? hstrip, List.append_assoc, List.singleton_append]
  rw [marker?] at h
  split at h
  · rename_i behind hnot
    obtain ⟨found, hfound, heq⟩ := Option.map_eq_some_iff.mp h
    cases heq
    obtain ⟨hmem, hbehind⟩ := hafter hfound
    exact ⟨hmem, by rw [append_of_stripPrefix? hnot, hbehind]; rfl⟩
  · obtain ⟨found, hfound, heq⟩ := Option.map_eq_some_iff.mp h
    cases heq
    exact hafter hfound

theorem beginsWithMarker_of_marker? {words : List String} {found : Bool × String × List Char}
    (h : marker? words first = some found) (hwords : words ⊆ markerWords) : BeginsWithMarker first := by
  obtain ⟨negated, word, rest⟩ := found
  obtain ⟨hmem, rfl⟩ := exists_of_marker? h
  cases negated with
  | false => exact .word "" rest (by simp) (hwords hmem)
  | true => exact .word "not-" rest (by simp) (hwords hmem)

/-- The marker is found in each of its forms; that of `not-` needs the dash to be no letter in another
case. -/
theorem isSome_regexMarker? {negation : String} {spelled : List Char} (rest : List Char)
    (negated : negation ∈ ["", "not", "not-"])
    (spells : isFolded (negation ++ "regexp:").toList spelled = true) :
    (regexMarker? (spelled ++ rest)).isSome = true := by
  rw [String.toList_append] at spells
  obtain ⟨front, back, rfl, hfront, hback⟩ := exists_of_isFolded_append spells
  have hregexp := afterRegexp?_append hback rest
  rw [List.append_assoc, regexMarker?]
  split
  · rfl
  · rename_i hnone
    simp only [List.mem_cons, List.not_mem_nil, or_false] at negated
    rcases negated with rfl | rfl | rfl
    · obtain rfl : front = [] := List.map_eq_nil_iff.mp (beq_iff_eq.mp hfront)
      rw [List.nil_append, hregexp] at hnone
      cases hnone
    · have hdash : stripPrefix? ['-'] (back ++ rest) = none := by
        refine stripPrefix?_eq_none ?_
        rintro ⟨tail, htail⟩
        have hfold := congrArg (fun s => (List.map foldCase s).head?) htail
        rw [List.map_append, List.map_append, beq_iff_eq.mp hback] at hfold
        cases hfold
      rw [stripFolded?_append hfront, Option.bind_some, hdash, Option.getD_none, hregexp]
      rfl
    · obtain ⟨letters, dash, rfl, hletters, hdash⟩ :=
        exists_of_isFolded_append (show isFolded ("not".toList ++ ['-']) front = true from hfront)
      obtain ⟨c, rfl⟩ := List.length_eq_one_iff.mp (length_of_isFolded hdash)
      obtain rfl := eq_minus_of_foldCase (List.cons.inj (beq_iff_eq.mp hdash)).1
      rw [List.append_assoc, stripFolded?_append hletters, Option.bind_some]
      change (Option.map _ (afterRegexp? (back ++ rest))).isSome = true
      rw [hregexp]
      rfl

end Markers

section Letters

variable {first : List Char}

def firstLetters (first : List Char) : List Char := (first.map foldCase).take 2

theorem firstLetters_append {word spelled : List Char} (h : isFolded word spelled = true)
    (hword : 2 ≤ word.length) (rest : List Char) : firstLetters (spelled ++ rest) = word.take 2 := by
  rw [firstLetters, List.map_append, beq_iff_eq.mp h, List.take_append_of_le_length hword]

def markerLetters : List (List Char) :=
  ["re", "no", "bo", "se", "st", "en", "co"].map (·.toList)

/-- Seven beginnings are enough to tell the markers from anything else. -/
theorem BeginsWithMarker.firstLetters_mem (h : BeginsWithMarker first) :
    firstLetters first ∈ markerLetters := by
  cases h with
  | @regexp negation spelled rest negated spells =>
    have hword : ∀ negation ∈ ["", "not", "not-"], 2 ≤ (negation ++ "regexp:").toList.length ∧
        (negation ++ "regexp:").toList.take 2 ∈ markerLetters := by
      decide
    rw [firstLetters_append spells (hword negation negated).1]
    exact (hword negation negated).2
  | @word negation word rest negated mem =>
    have hword : ∀ negation ∈ ["", "not-"], ∀ word ∈ markerWords,
        isFolded (negation.toList ++ word.toList) (negation.toList ++ word.toList) = true ∧
          2 ≤ (negation.toList ++ word.toList).length ∧
            (negation.toList ++ word.toList).take 2 ∈ markerLetters := by
      decide
    obtain ⟨hfolded, hlength, hletters⟩ := hword negation negated word mem
    rw [← List.append_assoc, firstLetters_append hfolded hlength]
    exact hletters

/-- The relations of a phrase begin with other letters, and so does its lead. -/
theorem firstLetters_text {w : SpelledPhrase} (h : w.IsWellFormed) :
    firstLetters w.text ∉ markerLetters := by
  have hlead := h.lead
  rw [SpelledPhrase.text]
  cases hw : w.lead with
  | none =>
    have hword : 2 ≤ w.relation.word.length ∧ w.relation.word.take 2 ∉ markerLetters := by
      cases w.relation <;> decide
    rw [Option.getD_none, List.nil_append, firstLetters_append h.letters hword.1]
    exact hword.2
  | some l =>
    rw [Option.getD_some, firstLetters_append (hlead l hw) (by decide)]
    decide

/-- No phrase begins with a marker. -/
theorem IsNumericPhrase.not_beginsWithMarker (h : IsNumericPhrase first) : ¬ BeginsWithMarker first := by
  obtain ⟨w, hw, rfl⟩ := h
  exact fun hmarker => firstLetters_text hw hmarker.firstLetters_mem

end Letters

section Kinds

variable {first : List Char} {kind : Kind}

/-- Whatever follows a marker, the filter has the kind of the marker. -/
theorem BeginsWithMarker.exists_kind (h : BeginsWithMarker first) (others : List String) :
    ∃ kind, kind ≠ .numeric ∧ markedKind? first others = some kind := by
  cases h with
  | regexp negation rest negated spells =>
    obtain ⟨found, hfound⟩ := Option.isSome_iff_exists.mp (isSome_regexMarker? rest negated spells)
    refine ⟨.regex (String.ofList found.2) found.1, by simp, ?_⟩
    rw [markedKind?, hfound]
  | word negation rest negated mem =>
    obtain ⟨k, l, hopposes, hk, hl⟩ := markedKind?_not_word mem rest others
    have hnumeric : k ≠ .numeric ∧ l ≠ .numeric := by
      cases hopposes <;> simp
    simp only [List.mem_cons, List.not_mem_nil, or_false] at negated
    rcases negated with rfl | rfl
    · exact ⟨k, hnumeric.1, hk⟩
    · exact ⟨l, hnumeric.2, hl⟩

/-- A kind is settled by a marker, or by a phrase if it is the numeric one. -/
theorem beginsWithMarker_or_isNumericPhrase {others : List String}
    (h : markedKind? first others = some kind) :
    BeginsWithMarker first ∨ kind = .numeric ∧ IsNumericPhrase first := by
  rw [markedKind?] at h
  split at h
  · rename_i hregex
    exact .inl (beginsWithMarker_of_regexMarker? hregex)
  · split at h
    · rename_i hboolean
      obtain ⟨found, hfound, -⟩ := Option.map_eq_some_iff.mp hboolean
      exact .inl (beginsWithMarker_of_marker? hfound (by decide))
    · split at h
      · rename_i hpattern
        obtain ⟨found, hfound, -⟩ := Option.bind_eq_some_iff.mp hpattern
        exact .inl (beginsWithMarker_of_marker? hfound (by decide))
      · split at h
        · rename_i hphrase
          cases h
          exact .inr ⟨rfl, isNumericPhrase_iff.mpr hphrase⟩
        · cases h

theorem IsNumericPhrase.markedKind?_ne_none (h : IsNumericPhrase first) (others : List String) :
    markedKind? first others ≠ none := by
  rw [markedKind?, if_pos (isNumericPhrase_iff.mp h)]
  split
  · simp
  · split
    · simp
    · split <;> simp

/-- Numeric phrases are what a numeric filter begins with. -/
theorem markedKind?_eq_numeric_iff (others : List String) :
    markedKind? first others = some .numeric ↔ IsNumericPhrase first := by
  constructor
  · intro h
    refine ((beginsWithMarker_or_isNumericPhrase h).resolve_left fun hmarker => ?_).2
    obtain ⟨kind, hkind, hmarked⟩ := hmarker.exists_kind others
    exact hkind (Option.some_inj.mp (hmarked.symm.trans h))
  · intro h
    obtain ⟨kind, hkind⟩ := Option.ne_none_iff_exists'.mp (h.markedKind?_ne_none others)
    rcases beginsWithMarker_or_isNumericPhrase hkind with hmarker | ⟨rfl, -⟩
    · exact absurd hmarker h.not_beginsWithMarker
    · exact hkind

/-- Nothing marks the kind of a filter exactly if its first token has neither marker nor phrase. -/
theorem markedKind?_eq_none_iff (others : List String) :
    markedKind? first others = none ↔ IsPlain first := by
  constructor
  · intro h
    refine ⟨fun hmarker => ?_, fun hphrase => hphrase.markedKind?_ne_none others h⟩
    obtain ⟨kind, -, hmarked⟩ := hmarker.exists_kind others
    rw [h] at hmarked
    cases hmarked
  · intro h
    rw [Option.eq_none_iff_forall_ne_some]
    intro kind hkind
    rcases beginsWithMarker_or_isNumericPhrase hkind with hmarker | ⟨-, hphrase⟩
    · exact h.1 hmarker
    · exact h.2 hphrase

instance (first : List Char) : Decidable (IsPlain first) :=
  decidable_of_iff _ (markedKind?_eq_none_iff [])

instance (first : List Char) : Decidable (IsNumericPhrase first) :=
  decidable_of_iff _ isNumericPhrase_iff.symm

end Kinds

section Tokens

variable {first : String} {others : List String}

theorem Kind.of_isPlain (h : IsPlain first.toList) (all : Bool) :
    Kind.of (first :: others) all = if all then .conjunctive else .disjunctive := by
  change (markedKind? first.toList others).getD _ = _
  rw [(markedKind?_eq_none_iff others).mpr h, Option.getD_none]

theorem Kind.of_isNumericPhrase (h : IsNumericPhrase first.toList) (all : Bool) :
    Kind.of (first :: others) all = .numeric := by
  change (markedKind? first.toList others).getD _ = _
  rw [(markedKind?_eq_numeric_iff others).mpr h, Option.getD_some]

end Tokens

end ComputedField.Filter
