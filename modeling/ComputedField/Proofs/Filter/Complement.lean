import ComputedField.Proofs.Filter.Meaning

/-!
# Filters turned round

A marker may have `not-` in front. The filter is then skipped whenever it would be without, and
otherwise asks through the same joins for just the opposite: whichever tests the columns pass, one of
the two conditions holds and the other does not.
-/

namespace ComputedField.Filter

open Text

/-- The words that mark a filter in lower case only. -/
def markerWords : List String := ["boolean", "search", "starts-with", "ends-with", "contains"]

/-- A first token that begins with a marker, without `not-`. -/
inductive IsMarked (first : List Char) : Prop where
  | regexp (h : startsInAnyCase "regexp:".toList first = true)
  | word {word : String} {rest : List Char} (mem : word ∈ markerWords)
      (h : first = word.toList ++ ':' :: rest)

/-- Kinds that differ in being negated only. -/
inductive Kind.Opposes : Kind → Kind → Prop where
  | regex (pattern : String) : Opposes (.regex pattern false) (.regex pattern true)
  | boolean (query : String) : Opposes (.boolean query false) (.boolean query true)
  | pattern (kind : MatchKind) (text : String) :
      Opposes (.pattern kind text false) (.pattern kind text true)

/-- Both are skipped, or each has one condition over the same joins, and just one of these holds. The
counter behind them is the same. -/
inductive Complements : Outcome × Nat → Outcome × Nat → Prop where
  | skipped (counter : Nat) : Complements (.skip, counter) (.skip, counter)
  | applied {p q : Predicate} (joins : List Join) (counter : Nat)
      (opposite : ∀ v, q.holds v = !p.holds v) :
      Complements (.applied ⟨joins, [p]⟩, counter) (.applied ⟨joins, [q]⟩, counter)

section Markers

variable {c : Char} {first : List Char}

/-- Two small letters are reached by folding that are not reached by lower-casing, and neither is in
`regexp:`. -/
theorem foldCase_eq_toLower (h : c.toLower ∈ "regexp:".toList) : foldCase c = c.toLower := by
  have hs : 'ſ'.toLower ∉ "regexp:".toList := by decide
  have hk : '\u212A'.toLower ∉ "regexp:".toList := by decide
  unfold foldCase
  split
  · rename_i he
    exact absurd (he ▸ h) hs
  · split
    · rename_i he
      exact absurd (he ▸ h) hk
    · rfl

/-- No letter of `regexp` has a folded form beyond ASCII. -/
theorem exists_afterRegexp? (h : startsInAnyCase "regexp:".toList first = true) :
    ∃ rest, afterRegexp? first = some rest := by
  obtain ⟨tail, htail⟩ := List.isPrefixOf_iff_prefix.mp h
  have hlower : (first.take 7).map Char.toLower = "regexp:".toList := by
    rw [List.map_take, ← htail]
    rfl
  have hfold : (first.take 7).map foldCase = "regexp:".toList := by
    rw [← hlower]
    apply List.map_congr_left
    intro c hc
    apply foldCase_eq_toLower
    rw [← hlower]
    exact List.mem_map_of_mem hc
  have hstrip : stripFolded? "regexp:".toList first = some (first.drop 7) := by
    change (if isFolded "regexp:".toList (first.take 7) then some (first.drop 7) else none) = _
    rw [isFolded, hfold, if_pos (by decide)]
  exact ⟨trimLeft (first.drop 7), by rw [afterRegexp?, hstrip, Option.map_some]⟩

theorem afterRegexp?_cons (hc : foldCase c ≠ 'r') (first : List Char) :
    afterRegexp? (c :: first) = none := by
  have hfold : isFolded "regexp:".toList ((c :: first).take 7) = false := by
    simp [isFolded, hc]
  change Option.map _ (if isFolded "regexp:".toList ((c :: first).take 7) then _ else _) = _
  rw [hfold]
  rfl

/-- What stands behind `not-` is read as a marker of a regular expression, as it is without. -/
theorem regexMarker?_not (first : List Char) :
    regexMarker? ("not-".toList ++ first) = (afterRegexp? first).map (true, ·) := by
  have hnot : afterRegexp? ("not-".toList ++ first) = none := afterRegexp?_cons (by decide) _
  have hstrip : stripFolded? "not".toList ("not-".toList ++ first) = some ('-' :: first) := rfl
  have hdash : stripPrefix? ['-'] ('-' :: first) = some first := rfl
  rw [regexMarker?, hnot, hstrip]
  change Option.map _ (afterRegexp? ((stripPrefix? ['-'] ('-' :: first)).getD _)) = _
  rw [hdash]
  rfl

/-- In front of `regexp:` in any case, `not-` negates the filter and changes nothing else about it. -/
theorem markedKind?_not_regexp (h : startsInAnyCase "regexp:".toList first = true)
    (others : List String) : ∃ k l, Kind.Opposes k l ∧ markedKind? first others = some k ∧
      markedKind? ("not-".toList ++ first) others = some l := by
  obtain ⟨rest, hrest⟩ := exists_afterRegexp? h
  refine ⟨_, _, .regex (String.ofList rest), ?_, ?_⟩
  · rw [markedKind?, regexMarker?, hrest]
  · rw [markedKind?, regexMarker?_not, hrest]
    rfl

theorem markedKind?_not_word {word : String} (hword : word ∈ markerWords) (rest : List Char)
    (others : List String) : ∃ k l, Kind.Opposes k l ∧
      markedKind? (word.toList ++ ':' :: rest) others = some k ∧
      markedKind? ("not-".toList ++ (word.toList ++ ':' :: rest)) others = some l := by
  simp only [markerWords, List.mem_cons, List.not_mem_nil, or_false] at hword
  rcases hword with rfl | rfl | rfl | rfl | rfl
  · exact ⟨_, _, .boolean _, rfl, rfl⟩
  · exact ⟨_, _, .boolean _, rfl, rfl⟩
  · exact ⟨_, _, .pattern .startsWith _, rfl, rfl⟩
  · exact ⟨_, _, .pattern .endsWith _, rfl, rfl⟩
  · exact ⟨_, _, .pattern .contains _, rfl, rfl⟩

/-- For every marker there is a filter with the negation and one without. -/
theorem IsMarked.exists_opposes (h : IsMarked first) (others : List String) :
    ∃ k l, Kind.Opposes k l ∧ markedKind? first others = some k ∧
      markedKind? ("not-".toList ++ first) others = some l := by
  cases h with
  | regexp h => exact markedKind?_not_regexp h others
  | word mem h =>
    subst h
    exact markedKind?_not_word mem _ others

end Markers

section Build

variable {field : FieldId} {counter : Nat}

theorem complements_applyOne {condition other : Join → Predicate}
    (h : ∀ join v, (other join).holds v = !(condition join).holds v) :
    Complements (applyOne field counter condition) (applyOne field counter other) :=
  .applied [⟨field, counter + 1⟩] (counter + 1) (h ⟨field, counter + 1⟩)

/-- Whether a filter is skipped and what it joins does not depend on its being negated. -/
theorem Kind.Opposes.complements {k l : Kind} (h : k.Opposes l) (tokens others : List String)
    (all : Bool) : Complements (buildKind field tokens all counter k)
      (buildKind field others all counter l) := by
  cases h with
  | regex pattern =>
    by_cases hp : pattern.isEmpty = true
    · rw [buildKind, buildKind, if_pos hp, if_pos hp]
      exact .skipped counter
    · rw [buildKind, buildKind, if_neg hp, if_neg hp]
      refine complements_applyOne fun join v => ?_
      rw [holds_regexCondition, holds_regexCondition, Bool.true_xor, Bool.false_xor]
  | boolean query =>
    rw [buildKind, buildKind]
    cases booleanQuery? query with
    | none => exact .skipped counter
    | some terms =>
      refine complements_applyOne fun join v => ?_
      rw [holds_negateIf, holds_negateIf, Bool.true_xor, Bool.false_xor]
  | pattern kind text =>
    by_cases ht : text.isEmpty = true
    · rw [buildKind, buildKind, if_pos ht, if_pos ht]
      exact .skipped counter
    · rw [buildKind, buildKind, if_neg ht, if_neg ht]
      refine complements_applyOne fun join v => ?_
      rw [holds_patternCondition, holds_patternCondition, Bool.true_xor, Bool.false_xor]

/-- Behind a marker the kind of a filter does not depend on whether everything counts. -/
theorem build_of_markedKind? {first : String} {others : List String} {k : Kind}
    (h : markedKind? first.toList others = some k) (all : Bool) :
    build field (first :: others) all counter = buildKind field (first :: others) all counter k := by
  have hkind : Kind.of (first :: others) all = k := by
    change (markedKind? first.toList others).getD _ = k
    rw [h, Option.getD_some]
  rw [build, hkind]
  rfl

/-- A filter whose first token has `not-` in front of a marker accepts exactly what the filter without
it does not. -/
theorem complements_build_not {first : String} (h : IsMarked first.toList) (field : FieldId)
    (others : List String) (all : Bool) (counter : Nat) :
    Complements (build field (first :: others) all counter)
      (build field (("not-" ++ first) :: others) all counter) := by
  obtain ⟨k, l, hopposes, hk, hl⟩ := h.exists_opposes others
  rw [← String.toList_append] at hl
  rw [build_of_markedKind? hk, build_of_markedKind? hl]
  exact hopposes.complements _ _ all

/-- A pattern that is another marker, with a second token that counts for nothing. -/
theorem complements_build_not_regexp : IsMarked "RegExp: not-contains:".toList ∧
    Complements (build ⟨7⟩ ["RegExp: not-contains:", "less than 5"] true 4)
      (build ⟨7⟩ ["not-RegExp: not-contains:", "less than 5"] true 4) := by
  have h : IsMarked "RegExp: not-contains:".toList := .regexp (by decide)
  exact ⟨h, complements_build_not h ⟨7⟩ ["less than 5"] true 4⟩

end Build

end ComputedField.Filter
