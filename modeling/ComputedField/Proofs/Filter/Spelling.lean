import ComputedField.Filter.Phrase
import ComputedField.Proofs.Decimal.Nearest
import ComputedField.Proofs.Text.Ascii

/-!
# How numeric phrases are spelled

A numeric phrase spells a comparison in letters of any case. It says what is spelled, with the double
nearest to its number, unless a long s stands for one of the letters: then it says that values are equal.
-/

namespace ComputedField.Filter

open Text Decimal

inductive Relation where
  | less
  | more
  | equal
  deriving DecidableEq, Repr

namespace Relation

def word : Relation → List Char
  | less => "less than".toList
  | more => "more than".toList
  | equal => "equal to".toList

def comparison : Relation → Comparison
  | less => .lt
  | more => .gt
  | equal => .eq

end Relation

/-- Digits of any script, perhaps with a point and more digits behind it. -/
inductive IsFigure : List Char → Prop where
  | whole {s : List Char} (nonempty : s ≠ []) (digits : ∀ c ∈ s, isDecimalDigit c = true) : IsFigure s
  | pointed {s t : List Char} (nonempty : s ≠ []) (more : t ≠ [])
      (digits : ∀ c ∈ s ++ t, isDecimalDigit c = true) : IsFigure (s ++ '.' :: t)

def IsSignedFigure (s : List Char) : Prop := IsFigure s ∨ ∃ t, IsFigure t ∧ s = '-' :: t

/-- A numeric phrase in its parts; the lead lets equal values in. -/
structure SpelledPhrase where
  lead : Option (List Char)
  relation : Relation
  letters : List Char
  number : List Char

namespace SpelledPhrase

def text (w : SpelledPhrase) : List Char := w.lead.getD [] ++ (w.letters ++ ' ' :: w.number)

def comparison (w : SpelledPhrase) : Comparison :=
  if w.lead.isSome then w.relation.comparison.orEqual else w.relation.comparison

/-- The letters are the words in any case, and the number is a figure. -/
structure IsWellFormed (w : SpelledPhrase) : Prop where
  lead : ∀ l ∈ w.lead, isFolded "equal to or ".toList l = true
  letters : isFolded w.relation.word w.letters = true
  number : IsSignedFigure w.number

/-- The letters are the words in any case, and the number is a numeral for the value. -/
structure Says (w : SpelledPhrase) (negative : Bool) (q : ℚ) : Prop where
  lead : ∀ l ∈ w.lead, isFolded "equal to or ".toList l = true
  letters : isFolded w.relation.word w.letters = true
  number : IsSignedNumeral negative w.number q

end SpelledPhrase

/-- The text is a numeric phrase, whatever its digits are. -/
def IsNumericPhrase (s : List Char) : Prop := ∃ w : SpelledPhrase, w.IsWellFormed ∧ w.text = s

section Folding

variable {word spelled rest : List Char}

theorem length_of_isFolded (h : isFolded word spelled = true) : spelled.length = word.length := by
  rw [← beq_iff_eq.mp h, List.length_map]

theorem stripFolded?_append (h : isFolded word spelled = true) (rest : List Char) :
    stripFolded? word (spelled ++ rest) = some rest := by
  rw [stripFolded?, ← length_of_isFolded h, List.take_left, List.drop_left, if_pos h]

/-- A word is not found where another one stands that begins with another letter. -/
theorem stripFolded?_eq_none (h : isFolded word spelled = true) (other : List Char)
    (hword : word ≠ []) (hother : other ≠ []) (hhead : word.head? ≠ other.head?) (rest : List Char) :
    stripFolded? other (spelled ++ rest) = none := by
  rw [Option.eq_none_iff_forall_ne_some]
  intro tail htail
  obtain ⟨front, hfront, happend⟩ := append_of_stripFolded? htail
  have hfold := congrArg (fun s => (List.map foldCase s).head?) happend
  rw [List.map_append, List.map_append, beq_iff_eq.mp h, beq_iff_eq.mp hfront,
    List.head?_append_of_ne_nil _ hword, List.head?_append_of_ne_nil _ hother] at hfold
  exact hhead hfold

variable {r : Relation} {letters number : List Char}

theorem relations_eq : relations = [Relation.less.word, Relation.more.word, Relation.equal.word] := rfl

/-- No relation is taken for another one, since they begin with different letters. -/
theorem relationAt?_append (h : isFolded r.word letters = true) (rest : List Char) :
    relationAt? (letters ++ rest) = some (letters, rest) := by
  have hfound : (stripFolded? r.word (letters ++ rest)).map
      (fun tail => ((letters ++ rest).take r.word.length, tail)) = some (letters, rest) := by
    rw [stripFolded?_append h, Option.map_some, ← length_of_isFolded h, List.take_left]
  rw [relationAt?, relations_eq]
  cases r with
  | less => rw [List.findSome?_cons, hfound]
  | more =>
    have hless := stripFolded?_eq_none h Relation.less.word (by decide) (by decide) (by decide) rest
    rw [List.findSome?_cons, hless, Option.map_none, List.findSome?_cons, hfound]
  | equal =>
    have hless := stripFolded?_eq_none h Relation.less.word (by decide) (by decide) (by decide) rest
    have hmore := stripFolded?_eq_none h Relation.more.word (by decide) (by decide) (by decide) rest
    rw [List.findSome?_cons, hless, Option.map_none, List.findSome?_cons, hmore, Option.map_none,
      List.findSome?_cons, hfound]

/-- The letters that are taken for a relation spell it. -/
theorem exists_of_relationAt? {s rest : List Char} (h : relationAt? s = some (letters, rest)) :
    ∃ r : Relation, isFolded r.word letters = true ∧ s = letters ++ rest := by
  obtain ⟨word, hword, hfound⟩ := List.exists_of_findSome?_eq_some h
  obtain ⟨tail, hstrip, heq⟩ := Option.map_eq_some_iff.mp hfound
  obtain ⟨spelled, hspelled, rfl⟩ := append_of_stripFolded? hstrip
  rw [← length_of_isFolded hspelled, List.take_left] at heq
  cases heq
  simp only [relations_eq, List.mem_cons, List.not_mem_nil, or_false] at hword
  rcases hword with rfl | rfl | rfl
  · exact ⟨.less, hspelled, rfl⟩
  · exact ⟨.more, hspelled, rfl⟩
  · exact ⟨.equal, hspelled, rfl⟩

/-- No relation with a number is taken for the lead, which goes on where a number would begin. -/
theorem stripFolded?_lead (h : isFolded r.word letters = true)
    (hnumber : ∀ c ∈ number.head?, foldCase c ≠ 'o') :
    stripFolded? "equal to or ".toList (letters ++ ' ' :: number) = none := by
  cases r with
  | less => exact stripFolded?_eq_none h _ (by decide) (by decide) (by decide) _
  | more => exact stripFolded?_eq_none h _ (by decide) (by decide) (by decide) _
  | equal =>
    rw [Option.eq_none_iff_forall_ne_some]
    intro tail htail
    obtain ⟨front, hfront, happend⟩ := append_of_stripFolded? htail
    have hlead : "equal to or ".toList = Relation.equal.word ++ ' ' :: 'o' :: "r ".toList := by decide
    have hfold := congrArg (List.map foldCase) happend
    rw [List.map_append, List.map_append, beq_iff_eq.mp h, beq_iff_eq.mp hfront, hlead,
      List.append_assoc, List.append_cancel_left_eq, List.map_cons] at hfold
    have htail := (List.cons.inj hfold).2
    cases number with
    | nil => cases htail
    | cons c rest => exact hnumber c rfl (List.cons.inj htail).1

end Folding

section Number

variable {s : List Char} {negative : Bool} {q : ℚ}

theorem isDecimalDigit_of_isDigit {c : Char} (h : c.isDigit = true) : isDecimalDigit c = true := by
  rw [isDecimalDigit_ascii ((toNat_of_isDigit h).2.trans (by decide)), h]

theorem isFigure_of_isNumeral (h : IsNumeral s q) : IsFigure s := by
  cases h with
  | whole nonempty digits => exact .whole nonempty fun c hc => isDecimalDigit_of_isDigit (digits c hc)
  | pointed nonempty more digits =>
    exact .pointed nonempty more fun c hc => isDecimalDigit_of_isDigit (digits c hc)

theorem isSignedFigure_of_isSignedNumeral (h : IsSignedNumeral negative s q) : IsSignedFigure s := by
  obtain ⟨t, ht, rfl⟩ := h
  cases negative with
  | false => exact .inl (isFigure_of_isNumeral ht)
  | true => exact .inr ⟨t, isFigure_of_isNumeral ht, rfl⟩

/-- Figures are recognised, with a point or without. -/
theorem isNumeral_of_isFigure (h : IsFigure s) : isNumeral s = true := by
  cases h with
  | whole nonempty digits =>
    rw [isNumeral, List.takeWhile_eq_self_iff.mpr digits, List.dropWhile_eq_nil_iff.mpr digits]
    simpa using nonempty
  | @pointed s t nonempty more digits =>
    rw [List.forall_mem_append] at digits
    rw [isNumeral, List.takeWhile_append_of_pos digits.1, List.dropWhile_append_of_pos digits.1,
      List.takeWhile_cons_of_neg (by decide), List.dropWhile_cons_of_neg (by decide)]
    simpa [nonempty, more] using digits.2

/-- What is read as a numeral is digits, and more digits where a point follows them. -/
theorem isFigure_of_isNumeral_eq_true (h : isNumeral s = true) : IsFigure s := by
  have hwhole : ∀ c ∈ s.takeWhile isDecimalDigit, isDecimalDigit c = true :=
    fun c hc => List.mem_takeWhile_imp hc
  have happend := List.takeWhile_append_dropWhile (p := isDecimalDigit) (l := s)
  rw [isNumeral, Bool.and_eq_true, Bool.not_eq_true', List.isEmpty_eq_false_iff] at h
  obtain ⟨hne, hrest⟩ := h
  generalize s.takeWhile isDecimalDigit = whole at *
  split at hrest
  · rename_i hnil
    rw [hnil, List.append_nil] at happend
    rw [← happend]
    exact .whole hne hwhole
  · rename_i fraction hpoint
    rw [Bool.and_eq_true, Bool.not_eq_true', List.isEmpty_eq_false_iff, List.all_eq_true] at hrest
    rw [hpoint] at happend
    rw [← happend]
    exact .pointed hne hrest.1 (List.forall_mem_append.mpr ⟨hwhole, hrest.2⟩)
  · cases hrest

/-- A figure begins with a digit. -/
theorem IsFigure.exists_digit (h : IsFigure s) : ∃ c rest, s = c :: rest ∧ isDecimalDigit c = true := by
  cases h with
  | whole nonempty digits =>
    obtain ⟨c, rest, rfl⟩ := List.exists_cons_of_ne_nil nonempty
    exact ⟨c, rest, rfl, digits c List.mem_cons_self⟩
  | pointed nonempty more digits =>
    obtain ⟨c, rest, rfl⟩ := List.exists_cons_of_ne_nil nonempty
    exact ⟨c, _, rfl, digits c List.mem_cons_self⟩

/-- What the pattern admits as a number is a figure, perhaps behind a minus sign. -/
theorem isSignedNumeral_iff : isSignedNumeral s = true ↔ IsSignedFigure s := by
  constructor
  · intro h
    unfold isSignedNumeral at h
    split at h
    · rename_i t
      exact .inr ⟨t, isFigure_of_isNumeral_eq_true h, rfl⟩
    · exact .inl (isFigure_of_isNumeral_eq_true h)
  · rintro (h | ⟨t, ht, rfl⟩)
    · rw [isSignedNumeral]
      · exact isNumeral_of_isFigure h
      · obtain ⟨c, rest, rfl, hc⟩ := h.exists_digit
        intro t heq
        cases heq
        cases hc
    · exact isNumeral_of_isFigure ht

/-- No digit is a letter in another case. -/
theorem foldCase_ne_of_isDecimalDigit {c : Char} (h : isDecimalDigit c = true) : foldCase c ≠ 'o' := by
  rw [foldCase]
  split
  · decide
  · split
    · decide
    · intro ho
      cases hupper : c.isUpper with
      | false =>
        rw [toLower_of_isUpper_eq_false hupper] at ho
        subst ho
        cases h
      | true =>
        have hascii : c.toNat < 0x80 := (toNat_of_isUpper hupper).2.trans (by decide)
        rw [isDecimalDigit_ascii hascii] at h
        rw [isUpper_of_isDigit h] at hupper
        cases hupper

/-- What begins a number does not go on with the lead. -/
theorem foldCase_head?_ne (h : IsSignedFigure s) : ∀ c ∈ s.head?, foldCase c ≠ 'o' := by
  intro c hc
  rcases h with h | ⟨t, -, rfl⟩
  · obtain ⟨d, rest, rfl, hd⟩ := h.exists_digit
    cases hc
    exact foldCase_ne_of_isDecimalDigit hd
  · cases hc
    decide

/-- Of the digits that a phrase may have, those of ASCII alone are read. -/
theorem exists_isNumeral (h : isNumeral s = true) {parts : List Char × List Char}
    (hsplit : splitNumeral? s = some parts) : ∃ q, IsNumeral s q := by
  have hwhole : ∀ c ∈ s.takeWhile (·.isDigit), c.isDigit = true := fun c hc => List.mem_takeWhile_imp hc
  have happend := List.takeWhile_append_dropWhile (p := (·.isDigit)) (l := s)
  rw [splitNumeral?] at hsplit
  generalize s.takeWhile (·.isDigit) = whole at *
  split at hsplit
  · rename_i hrest
    rw [hrest, List.append_nil] at happend
    rw [← happend]
    refine ⟨_, .whole ?_ hwhole⟩
    rintro rfl
    cases hsplit
  · rename_i fraction hrest
    split at hsplit
    · rename_i hdigits
      rw [Bool.and_eq_true, List.all_eq_true] at hdigits
      have hdecimal : ∀ c ∈ whole, isDecimalDigit c = true := fun c hc =>
        isDecimalDigit_of_isDigit (hwhole c hc)
      rw [hrest] at happend
      rw [← happend, isNumeral, List.takeWhile_append_of_pos hdecimal,
        List.dropWhile_append_of_pos hdecimal, List.takeWhile_cons_of_neg (by decide),
        List.dropWhile_cons_of_neg (by decide), List.append_nil] at h
      simp only [Bool.and_eq_true, Bool.not_eq_true', List.isEmpty_eq_false_iff] at h
      rw [← happend]
      exact ⟨_, .pointed h.1 h.2.1 (List.forall_mem_append.mpr ⟨hwhole, hdigits.1⟩)⟩
    · cases hsplit
  · cases hsplit

/-- A number that can be parsed is a numeral. -/
theorem exists_isSignedNumeral {x : Float} (h : isSignedNumeral s = true) (hx : parse? s = some x) :
    ∃ negative q, IsSignedNumeral negative s q := by
  unfold parse? at hx
  split at hx
  · rename_i digits
    obtain ⟨parts, hsplit, -⟩ := Option.map_eq_some_iff.mp hx
    obtain ⟨q, hq⟩ := exists_isNumeral h hsplit
    exact ⟨true, q, digits, hq, rfl⟩
  · rename_i hpositive
    obtain ⟨parts, hsplit, -⟩ := Option.map_eq_some_iff.mp hx
    rw [isSignedNumeral] at h
    · obtain ⟨q, hq⟩ := exists_isNumeral h hsplit
      exact ⟨false, q, s, hq, rfl⟩
    · exact hpositive

end Number

section Phrase

variable {token : String} {op : Comparison} {x : Float}

/-- A relation that is spelled with a long s is recognised and taken for equality. -/
theorem ofRelation_eq {r : Relation} {letters : List Char} (h : isFolded r.word letters = true) :
    Comparison.ofRelation letters = if 'ſ' ∈ letters then .eq else r.comparison := by
  have hfold : letters.map foldCase = r.word := beq_iff_eq.mp h
  split
  · rename_i hlong
    have hother {word : List Char} (hword : 'ſ' ∉ word) : isInAnyCase word letters = false := by
      rw [isInAnyCase, beq_eq_false_iff_ne]
      rintro rfl
      exact hword (List.mem_map_of_mem (f := Char.toLower) hlong)
    rw [Comparison.ofRelation, hother (by decide), hother (by decide)]
    rfl
  · rename_i hlong
    have hlower : letters.map Char.toLower = r.word := by
      rw [← hfold]
      refine List.map_congr_left fun c hc => ?_
      have hkelvin : c ≠ '\u212A' := by
        rintro rfl
        have hk : 'k' ∈ r.word := hfold ▸ List.mem_map_of_mem (f := foldCase) hc
        cases r <;> exact absurd hk (by decide)
      have hc' : c ≠ 'ſ' := by
        rintro rfl
        exact hlong hc
      rw [foldCase, if_neg hc', if_neg hkelvin]
    rw [Comparison.ofRelation, isInAnyCase, isInAnyCase, hlower]
    cases r <;> decide

theorem SpelledPhrase.Says.isWellFormed {w : SpelledPhrase} {negative : Bool} {q : ℚ}
    (h : w.Says negative q) : w.IsWellFormed :=
  ⟨h.lead, h.letters, isSignedFigure_of_isSignedNumeral h.number⟩

/-- A phrase is taken apart into what it was put together from. -/
theorem phrase?_text {w : SpelledPhrase} (h : w.IsWellFormed) :
    phrase? w.text = some ⟨w.lead.isSome, w.letters, w.number⟩ := by
  have hrelation := relationAt?_append h.letters (' ' :: w.number)
  have hfrom (orEqual : Bool) : phraseFrom? orEqual (w.letters ++ ' ' :: w.number) =
      some ⟨orEqual, w.letters, w.number⟩ := by
    rw [phraseFrom?, hrelation]
    exact if_pos (isSignedNumeral_iff.mpr h.number)
  have hlead := h.lead
  rw [phrase?, SpelledPhrase.text]
  cases hw : w.lead with
  | none =>
    have hnone := stripFolded?_lead h.letters (foldCase_head?_ne h.number)
    rw [Option.getD_none, List.nil_append, hnone]
    exact hfrom false
  | some l =>
    rw [Option.getD_some, stripFolded?_append (hlead l hw)]
    exact hfrom true

/-- A relation, a space and a figure are what is left of a phrase without its lead. -/
theorem exists_of_phraseFrom? {s : List Char} {orEqual : Bool} {p : Phrase}
    (h : phraseFrom? orEqual s = some p) :
    ∃ r : Relation, isFolded r.word p.relation = true ∧ s = p.relation ++ ' ' :: p.number ∧
      IsSignedFigure p.number := by
  rw [phraseFrom?] at h
  split at h
  · rename_i relation number hrelation
    split at h
    · rename_i hnumber
      cases h
      obtain ⟨r, hr, hs⟩ := exists_of_relationAt? hrelation
      exact ⟨r, hr, hs, isSignedNumeral_iff.mp hnumber⟩
    · cases h
  · cases h

/-- Whatever is recognised is spelled as a phrase. -/
theorem exists_of_phrase? {s : List Char} {p : Phrase} (h : phrase? s = some p) :
    ∃ w : SpelledPhrase, w.IsWellFormed ∧ w.text = s ∧ w.number = p.number := by
  rw [phrase?] at h
  split at h
  · rename_i rest hlead
    obtain ⟨l, hl, htext⟩ := append_of_stripFolded? hlead
    obtain ⟨r, hr, rfl, hnumber⟩ := exists_of_phraseFrom? h
    exact ⟨⟨some l, r, p.relation, p.number⟩,
      ⟨fun _ heq => Option.some_inj.mp heq ▸ hl, hr, hnumber⟩, htext.symm, rfl⟩
  · obtain ⟨r, hr, htext, hnumber⟩ := exists_of_phraseFrom? h
    exact ⟨⟨none, r, p.relation, p.number⟩, ⟨nofun, hr, hnumber⟩, htext.symm, rfl⟩

/-- Phrases are recognised, whatever their digits, and nothing else is. -/
theorem isNumericPhrase_iff {s : List Char} : IsNumericPhrase s ↔ (phrase? s).isSome = true := by
  rw [Option.isSome_iff_exists]
  constructor
  · rintro ⟨w, hw, rfl⟩
    exact ⟨_, phrase?_text hw⟩
  · rintro ⟨p, hp⟩
    obtain ⟨w, hw, htext, -⟩ := exists_of_phrase? hp
    exact ⟨w, hw, htext⟩

/-- What is spelled is said of the nearest double. -/
theorem numericComparison?_text {w : SpelledPhrase} {negative : Bool} {q : ℚ} (h : w.Says negative q)
    (htext : w.text = token.toList) :
    ∃ x, numericComparison? token =
        some (if 'ſ' ∈ w.letters then .eq else w.comparison, x) ∧ (Reading.of x).IsNearest negative q := by
  obtain ⟨x, hx, hnearest⟩ := exists_parse? h.number
  refine ⟨x, ?_, hnearest⟩
  have hop : Phrase.comparison ⟨w.lead.isSome, w.letters, w.number⟩ =
      if 'ſ' ∈ w.letters then .eq else w.comparison := by
    rw [Phrase.comparison, ofRelation_eq h.letters, SpelledPhrase.comparison]
    dsimp only
    split <;> rename_i hlong
    · split <;> rfl
    · rfl
  rw [numericComparison?, ← htext, phrase?_text h.isWellFormed, Option.bind_some, hx, Option.map_some, hop]

/-- Whatever says something is spelled as a phrase. -/
theorem exists_spelledPhrase (h : numericComparison? token = some (op, x)) :
    ∃ (w : SpelledPhrase) (negative : Bool) (q : ℚ), w.Says negative q ∧ w.text = token.toList := by
  obtain ⟨p, hp, hmap⟩ := Option.bind_eq_some_iff.mp h
  obtain ⟨y, hy, -⟩ := Option.map_eq_some_iff.mp hmap
  obtain ⟨w, hw, htext, hnumber⟩ := exists_of_phrase? hp
  rw [← hnumber] at hy
  obtain ⟨negative, q, hq⟩ := exists_isSignedNumeral (isSignedNumeral_iff.mpr hw.number) hy
  exact ⟨w, negative, q, ⟨hw.lead, hw.letters, hq⟩, htext⟩

/-- A lead in front of equality leaves it as it is. -/
theorem SpelledPhrase.comparison_eq_iff (w : SpelledPhrase) :
    w.comparison = .eq ↔ w.relation = .equal := by
  rw [SpelledPhrase.comparison]
  generalize w.lead.isSome = led
  generalize w.relation = r
  revert led
  cases r <;> decide

/-- Of the relations, only one has an s for which a long s could stand. -/
theorem eq_less_of_long {r : Relation} {letters : List Char} (h : isFolded r.word letters = true)
    (hlong : 'ſ' ∈ letters) : r = .less := by
  have hs : 's' ∈ r.word := by
    rw [← beq_iff_eq.mp h]
    exact List.mem_map_of_mem (f := foldCase) hlong
  cases r with
  | less => rfl
  | more => exact absurd hs (by decide)
  | equal => exact absurd hs (by decide)

/-- A phrase that says something says what it spells, of the nearest double, unless it is spelled with a
long s; then it says that values are equal, which only an equality does otherwise. -/
theorem numericComparison?_eq_some (h : numericComparison? token = some (op, x)) :
    (∃ (w : SpelledPhrase) (negative : Bool) (q : ℚ), w.Says negative q ∧ w.text = token.toList) ∧
      ∀ (w : SpelledPhrase) (negative : Bool) (q : ℚ), w.Says negative q → w.text = token.toList →
        (op = w.comparison ↔ 'ſ' ∉ w.letters) ∧ (op = .eq ↔ w.relation = .equal ∨ 'ſ' ∈ w.letters) ∧
          (Reading.of x).IsNearest negative q := by
  refine ⟨exists_spelledPhrase h, fun w negative q hsays htext => ?_⟩
  obtain ⟨y, hy, hnearest⟩ := numericComparison?_text hsays htext
  rw [hy] at h
  cases h
  split
  · rename_i hlong
    have hless := eq_less_of_long hsays.letters hlong
    have hne : w.comparison ≠ .eq := fun heq => by
      rw [w.comparison_eq_iff, hless] at heq
      cases heq
    exact ⟨iff_of_false hne.symm (not_not_intro hlong), iff_of_true rfl (.inr hlong), hnearest⟩
  · rename_i hlong
    rw [w.comparison_eq_iff]
    exact ⟨iff_of_true rfl hlong, (or_iff_left hlong).symm, hnearest⟩

theorem isSignedNumeral_five : IsSignedNumeral false "5".toList 5 := by
  have h := IsNumeral.whole (s := ['5']) (by simp) (List.forall_mem_singleton.mpr rfl)
  have hfive : Nat.ofDigitChars 10 ['5'] 0 = 5 := by decide
  rw [hfive] at h
  exact ⟨_, h, rfl⟩

theorem numericComparison?_eq_some_or_less :
    numericComparison? "EQUAL to or Less Than 5" = some (.le, 5) ∧
      ∃ w : SpelledPhrase, w.Says false 5 ∧ w.text = "EQUAL to or Less Than 5".toList ∧
        (Comparison.le = w.comparison ↔ 'ſ' ∉ w.letters) := by
  have h : numericComparison? "EQUAL to or Less Than 5" = some (.le, 5) := by decide +kernel
  let w : SpelledPhrase := ⟨some "EQUAL to or ".toList, .less, "Less Than".toList, "5".toList⟩
  have hsays : w.Says false 5 :=
    ⟨fun l hl => by cases hl; decide, by decide, isSignedNumeral_five⟩
  have htext : w.text = "EQUAL to or Less Than 5".toList := by decide
  exact ⟨h, w, hsays, htext, ((numericComparison?_eq_some h).2 w false 5 hsays htext).1⟩

/-- With a long s, what spells a lesser value says an equal one. -/
theorem numericComparison?_long : ∃ w : SpelledPhrase, w.Says false 5 ∧ w.text = "leſs than 5".toList ∧
    w.comparison = .lt ∧ numericComparison? "leſs than 5" = some (.eq, 5) :=
  ⟨⟨none, .less, "leſs than".toList, "5".toList⟩, ⟨nofun, by decide, isSignedNumeral_five⟩, by decide,
    rfl, by decide +kernel⟩

end Phrase

end ComputedField.Filter
