import ComputedField.Proofs.Filter.Selection
import ComputedField.Proofs.Filter.Spelling
import ComputedField.Proofs.Sql.Meaning

/-!
# The numbers of a written condition

Numbers come into a condition by the phrases of a filter. One that is too great for a double is written as
a word, and with such a word in it a condition cannot be read.
-/

namespace ComputedField.Sql

open ComputedField.Decimal ComputedField.Filter

/-- Digits with a sign or none, and with a point and more digits behind it or none. -/
def IsWrittenNumber (s : List Char) : Prop := ∃ negative q, IsSignedNumeral negative s q

section Numeral

variable {x : Float}

theorem numeral_of_infinite {negative : Bool} (h : Reading.of x = .infinite negative) :
    numeral x = (if negative then "-inf" else "inf").toList := by
  have hzero : ¬ (x == 0.0) = true := by
    rw [beq_zero_iff, h]
    rintro ⟨_, _, hfinite⟩
    cases hfinite
  rw [numeral, if_neg hzero, Style.format, h]
  cases negative <;> rfl

theorem numeral_of_nan (h : Reading.of x = .nan) : numeral x = "NaN".toList := by
  have hzero : ¬ (x == 0.0) = true := by
    rw [beq_zero_iff, h]
    rintro ⟨_, _, hfinite⟩
    cases hfinite
  rw [numeral, if_neg hzero, Style.format, h]
  rfl

/-- Finite doubles are written with digits. -/
theorem isWrittenNumber_numeral (h : x.isFinite = true) : IsWrittenNumber (numeral x) := by
  obtain ⟨negative, mantissa, exponent, hr⟩ := (isFinite_iff x).mp h
  rw [numeral]
  by_cases hzero : (x == 0.0) = true
  · rw [if_pos hzero]
    exact ⟨false, 0, ['0'], isNumeral_zero, rfl⟩
  · have hm : mantissa ≠ 0 := by
      rintro rfl
      exact hzero ((beq_zero_iff x).mpr ⟨negative, exponent, hr⟩)
    rw [if_neg hzero, toList_format_plainStyle hr hm]
    exact ⟨negative, _, _, isNumeral_positional (shortest mantissa exponent), rfl⟩

/-- Infinities and what is no number are written as words. -/
theorem isFinite_of_isWrittenNumber (h : IsWrittenNumber (numeral x)) : x.isFinite = true := by
  obtain ⟨negative, q, t, ht, hx⟩ := h
  obtain ⟨c, rest, rfl, hc⟩ := ht.exists_digit
  cases hr : Reading.of x with
  | nan =>
    rw [numeral_of_nan hr] at hx
    cases negative <;> cases hx
    cases hc
  | infinite n =>
    rw [numeral_of_infinite hr] at hx
    cases negative <;> cases n <;> cases hx <;> cases hc
  | finite n m e => exact (isFinite_iff x).mpr ⟨n, m, e, hr⟩

/-- Of the doubles, just the finite ones are written as numbers. -/
theorem isWrittenNumber_numeral_iff : IsWrittenNumber (numeral x) ↔ x.isFinite = true :=
  ⟨isFinite_of_isWrittenNumber, isWrittenNumber_numeral⟩

end Numeral

/-- The characters have no reading as tokens. -/
def Breaks (s : List Char) : Prop := ∀ rest, Stops rest → tokens (s ++ rest) = none

section Breaks

variable {s u : List Char} {ts : List Token}

/-- Where no token begins there is no reading. -/
theorem breaks_of_scanToken {c : Char} (hc : c.isWhitespace = false)
    (h : ∀ rest, Stops rest → scanToken c (s ++ rest) = none) : Breaks (c :: s) := by
  intro rest hrest
  rw [List.cons_append, tokens, if_neg (by simp [hc])]
  split
  · rfl
  · rename_i hsome
    rw [h rest hrest] at hsome
    cases hsome

theorem Scans.breaks (h : Scans s ts) (hu : Breaks u) : Breaks (s ++ ' ' :: u) := by
  intro rest hrest
  rw [List.append_assoc, List.cons_append, h _ (.blank (u ++ rest)), tokens_blank, hu rest hrest,
    Option.map_none]

theorem Breaks.append (h : Breaks s) (hu : ∀ rest, Stops (u ++ rest)) : Breaks (s ++ u) := by
  intro rest _
  rw [List.append_assoc, h _ (hu rest)]

theorem Breaks.parenthesized (h : Breaks s) : Breaks ('(' :: s ++ [')']) := by
  intro rest hrest
  have hs := (h.append (u := [')']) .closeParen) rest hrest
  rw [List.cons_append, List.cons_append, tokens_cons rfl rfl, hs, Option.map_none]

/-- The words for what is not finite are no tokens. -/
theorem breaks_numeral {x : Float} (hx : ¬ x.isFinite = true) : Breaks (numeral x) := by
  cases hr : Reading.of x with
  | nan =>
    rw [numeral_of_nan hr]
    exact breaks_of_scanToken rfl fun rest hrest => by cases hrest <;> rfl
  | infinite negative =>
    rw [numeral_of_infinite hr]
    cases negative with
    | false => exact breaks_of_scanToken rfl fun rest hrest => by cases hrest <;> rfl
    | true => exact breaks_of_scanToken rfl fun rest hrest => by cases hrest <;> rfl
  | finite n m e => exact absurd ((isFinite_iff x).mpr ⟨n, m, e, hr⟩) hx

/-- One operand without a reading spoils them all. -/
theorem breaks_intercalate (k : Connective) {ss : List (List Char)}
    (h : ∀ s ∈ ss, (∃ ts, Scans s ts) ∨ Breaks s) (hbreaks : ∃ s ∈ ss, Breaks s) :
    Breaks (k.separator.intercalate ss) := by
  induction ss with
  | nil => simp at hbreaks
  | cons s others ih =>
    rw [List.forall_mem_cons] at h
    cases others with
    | nil =>
      rw [List.intercalate_singleton]
      simpa using hbreaks
    | cons second rest =>
      have hjoin (tail : List Char) : s ++ k.separator ++ tail =
          s ++ ' ' :: k.keyword.spelling.toList ++ ' ' :: tail := by
        simp [Connective.separator]
      rw [List.intercalate_cons_cons, hjoin]
      by_cases hs : Breaks s
      · rw [List.append_assoc]
        exact hs.append fun after => .blank _
      · obtain ⟨ts, hscans⟩ := h.1.resolve_right hs
        have hothers := ih h.2 (by simpa [hs] using hbreaks)
        exact (hscans.then_blank (scans_keyword k.keyword)).breaks hothers

/-- A group breaks where one of its members does. -/
theorem breaks_group (k : Connective) {constant : String} {ss : List (List Char)}
    (h : ∀ s ∈ ss, (∃ ts, Scans s ts) ∨ Breaks s) (hbreaks : ∃ s ∈ ss, Breaks s) :
    Breaks (group k.keyword.spelling constant ss) := by
  obtain ⟨s, hs, -⟩ := id hbreaks
  rw [group, if_neg (by simpa using List.ne_nil_of_mem hs)]
  exact (breaks_intercalate k h hbreaks).parenthesized

/-- What is no sequence of tokens is no condition. -/
theorem readCondition_of_breaks {p : Predicate} (h : Breaks (condition p)) :
    readCondition (writeCondition p) = none := by
  have htokens := h [] .nil
  rw [List.append_nil] at htokens
  rw [readCondition, writeCondition, String.toList_ofList, htokens]
  rfl

end Breaks

mutual

def numbers : Predicate → List Float
  | .compare _ _ (.number x) => [x]
  | .oneOf _ values => values.filterMap fun | .number x => some x | .text _ => none
  | .and items | .or items => numbersOfAll items
  | .not item => numbers item
  | _ => []

def numbersOfAll : List Predicate → List Float
  | [] => []
  | p :: rest => numbers p ++ numbersOfAll rest

end

theorem exists_readCondition {p : Predicate} (h : IsWritable p) :
    ∃ c, readCondition (writeCondition p) = some c := by
  obtain ⟨c, hc, -⟩ := exists_operand p h
  refine ⟨c, readCondition_of_isOperand ?_⟩
  rw [writeCondition, String.toList_ofList]
  exact hc

section Numeric

variable {cs : List (Comparison × Float)} {all : Bool} {join : Join}

theorem numbersOfAll_compare (column : ColumnRef) :
    numbersOfAll (cs.map fun (op, x) => .compare column op (.number x)) = cs.map Prod.snd := by
  induction cs with
  | nil => rfl
  | cons c rest ih => exact congrArg (c.2 :: ·) ih

theorem numbers_numericCondition : numbers (numericCondition cs all join) = cs.map Prod.snd := by
  rw [numericCondition]
  split <;> exact numbersOfAll_compare _

theorem scans_or_breaks_compare (column : ColumnRef) (op : Comparison) (x : Float) :
    (x.isFinite = true ∧ ∃ ts, Scans (condition (.compare column op (.number x))) ts) ∨
      ¬ x.isFinite = true ∧ Breaks (condition (.compare column op (.number x))) := by
  have hfront := (scans_column column).then_blank (scans_comparison op)
  by_cases hx : x.isFinite = true
  · exact .inl ⟨hx, _, hfront.then_blank (scans_number hx)⟩
  · exact .inr ⟨hx, hfront.breaks (breaks_numeral hx)⟩

theorem conditions_eq_map (ps : List Predicate) : conditions ps = ps.map condition := by
  induction ps with
  | nil => rfl
  | cons p rest ih => exact congrArg (condition p :: ·) ih

/-- With finite numbers a numeric condition can be written. -/
theorem isWritable_numericCondition (h : ∀ x ∈ cs.map Prod.snd, x.isFinite = true) :
    IsWritable (numericCondition cs all join) := by
  have hclauses : ∀ p ∈ cs.map fun (op, x) => Predicate.compare ⟨join, .value⟩ op (.number x),
      IsWritable p := by
    intro p hp
    obtain ⟨c, hc, rfl⟩ := List.mem_map.mp hp
    rw [IsWritable, IsFinite]
    exact h c.2 (List.mem_map_of_mem hc)
  rw [numericCondition]
  dsimp only
  split
  · rw [IsWritable]
    exact hclauses
  · rw [IsWritable]
    exact hclauses

/-- With a number that is not finite, what is written has no reading. -/
theorem breaks_numericCondition (h : ∃ x ∈ cs.map Prod.snd, ¬ x.isFinite = true) :
    Breaks (condition (numericCondition cs all join)) := by
  obtain ⟨x, hx, hinfinite⟩ := h
  obtain ⟨c, hc, rfl⟩ := List.mem_map.mp hx
  have hgroup (k : Connective) (constant : String) : Breaks (group k.keyword.spelling constant
      (conditions (cs.map fun (op, x) => .compare ⟨join, .value⟩ op (.number x)))) := by
    rw [conditions_eq_map, List.map_map]
    refine breaks_group k ?_ ⟨_, List.mem_map_of_mem hc, ?_⟩
    · intro s hs
      obtain ⟨d, -, rfl⟩ := List.mem_map.mp hs
      exact (scans_or_breaks_compare _ d.1 d.2).imp And.right And.right
    · exact ((scans_or_breaks_compare _ c.1 c.2).resolve_left fun hfinite => hinfinite hfinite.1).2
  rw [numericCondition]
  cases all with
  | true => exact hgroup .and "TRUE"
  | false => exact hgroup .or "FALSE"

/-- Comparisons with numbers are read if all the numbers are finite, and only then. -/
theorem readCondition_numericCondition :
    (∃ c, readCondition (writeCondition (numericCondition cs all join)) = some c) ↔
      ∀ x ∈ cs.map Prod.snd, x.isFinite = true := by
  constructor
  · rintro ⟨c, hc⟩
    by_contra hnot
    push Not at hnot
    rw [readCondition_of_breaks (breaks_numericCondition hnot)] at hc
    cases hc
  · intro hfinite
    exact exists_readCondition (isWritable_numericCondition hfinite)

end Numeric

section Build

variable {field : FieldId} {tokens : List String} {all : Bool} {counter after : Nat} {f : Fragment}
  {p : Predicate}

theorem eq_condition_of_applyOne {c : Join → Predicate}
    (h : applyOne field counter c = (.applied f, after)) (hp : p ∈ f.conditions) :
    ∃ join, p = c join := by
  cases h
  exact ⟨_, List.mem_singleton.mp hp⟩

theorem eq_tokenCondition_of_conjunction (hp : p ∈ (conjunction field counter tokens).conditions) :
    ∃ token join, p = tokenCondition token join := by
  induction tokens generalizing counter with
  | nil => cases hp
  | cons token rest ih =>
    rcases List.mem_cons.mp hp with rfl | hp
    · exact ⟨token, _, rfl⟩
    · exact ih hp

/-- A condition without numbers that is read whatever its texts are. -/
structure HasNoNumber (p : Predicate) : Prop where
  numbers : numbers p = []
  writable : IsWritable p

theorem HasNoNumber.negateIf (h : HasNoNumber p) (negate : Bool) : HasNoNumber (p.negateIf negate) := by
  cases negate with
  | false => exact h
  | true =>
    refine ⟨h.numbers, ?_⟩
    rw [Predicate.negateIf, if_pos rfl, IsWritable]
    exact h.writable

/-- Numbers stand in the conditions of numeric filters alone. -/
theorem numericCondition_or_hasNoNumber (h : build field tokens all counter = (.applied f, after))
    (hp : p ∈ f.conditions) :
    (∃ join, p = numericCondition (comparisonsOf tokens) all join) ∨ HasNoNumber p := by
  have hne : tokens ≠ [] := by
    rintro rfl
    cases h
  rw [build_of_ne_nil hne] at h
  cases hkind : Kind.of tokens all with
  | regex pattern negated =>
    rw [hkind, buildKind] at h
    split at h
    · cases h
    · obtain ⟨join, rfl⟩ := eq_condition_of_applyOne h hp
      refine .inr ?_
      cases negated <;> exact ⟨rfl, by simp [regexCondition, onBoth, IsWritable]⟩
  | boolean query negated =>
    rw [hkind, buildKind] at h
    split at h
    · cases h
    · obtain ⟨join, rfl⟩ := eq_condition_of_applyOne h hp
      exact .inr (HasNoNumber.negateIf ⟨rfl, by simp [IsWritable]⟩ negated)
  | pattern kind text negated =>
    rw [hkind, buildKind] at h
    split at h
    · cases h
    · obtain ⟨join, rfl⟩ := eq_condition_of_applyOne h hp
      exact .inr (HasNoNumber.negateIf ⟨rfl, by simp [onBoth, IsWritable]⟩ negated)
  | numeric =>
    rw [hkind] at h
    by_cases hnone : comparisonsOf tokens = []
    · rw [buildKind_numeric_nil hnone] at h
      cases h
    · rw [buildKind_numeric hnone] at h
      exact .inl (eq_condition_of_applyOne h hp)
  | conjunctive =>
    rw [hkind] at h
    cases h
    obtain ⟨token, join, rfl⟩ := eq_tokenCondition_of_conjunction hp
    exact .inr ⟨rfl, by simp [tokenCondition, onBoth, IsWritable, IsFinite]⟩
  | disjunctive =>
    rw [hkind] at h
    obtain ⟨join, rfl⟩ := eq_condition_of_applyOne h hp
    refine .inr ⟨?_, ?_⟩
    · simp [tokensCondition, onBoth, numbers, numbersOfAll]
    · simp [tokensCondition, onBoth, IsWritable, IsFinite, hne]

/-- What a filter asks is written in SQL that can be read if the numbers in it are written as such, and
only then. Each of them is that of a phrase among the tokens, and is written as a number if its value is
below the limit of doubles, and as a word otherwise. -/
theorem isWrittenNumber_of_build (h : build field tokens all counter = (.applied f, after))
    (hp : p ∈ f.conditions) :
    ((∃ c, readCondition (writeCondition p) = some c) ↔
      ∀ x ∈ numbers p, IsWrittenNumber (numeral x)) ∧
    ∀ x ∈ numbers p, ∃ token ∈ tokens, ∃ (w : SpelledPhrase) (negative : Bool) (q : ℚ),
      w.Says negative q ∧ w.text = token.toList ∧ (IsWrittenNumber (numeral x) ↔ q < limit) ∧
        (limit ≤ q → numeral x = (if negative then "-inf" else "inf").toList) := by
  rcases numericCondition_or_hasNoNumber h hp with ⟨join, rfl⟩ | hnone
  · rw [numbers_numericCondition, readCondition_numericCondition]
    refine ⟨forall₂_congr fun x _ => isWrittenNumber_numeral_iff.symm, fun x hx => ?_⟩
    obtain ⟨⟨op, y⟩, hc, rfl⟩ := List.mem_map.mp hx
    obtain ⟨token, htoken, hcomparison⟩ := List.mem_filterMap.mp hc
    obtain ⟨w, negative, q, hsays, htext⟩ := exists_spelledPhrase hcomparison
    obtain ⟨z, hz, hnearest⟩ := numericComparison?_text hsays htext
    rw [hz] at hcomparison
    cases hcomparison
    have hlimit := isFinite_iff_lt_limit hnearest
    exact ⟨token, htoken, w, negative, q, hsays, htext, isWrittenNumber_numeral_iff.trans hlimit,
      fun hq => numeral_of_infinite (eq_infinite_of_limit_le hnearest hq)⟩
  · rw [hnone.numbers]
    exact ⟨iff_of_true (exists_readCondition hnone.writable) nofun, nofun⟩

theorem build_numeric_singleton {token : String} {op : Comparison} {x : Float}
    (hkind : Kind.of [token] all = .numeric) (hcomparison : numericComparison? token = some (op, x)) :
    build field [token] all counter =
      applyOne field counter (numericCondition [(op, x)] all) := by
  have hone : comparisonsOf [token] = [(op, x)] := by
    rw [comparisonsOf, List.filterMap_cons, hcomparison, List.filterMap_nil]
  rw [build_of_ne_nil (by simp), hkind, buildKind_numeric (by simp [hone]), hone]

theorem isWrittenNumber_more_than :
    let p := numericCondition [(.gt, 2.5)] false ⟨⟨7⟩, 1⟩
    build ⟨7⟩ ["more than 2.5"] false 0 = (.applied ⟨[⟨⟨7⟩, 1⟩], [p]⟩, 1) ∧
      ((∃ c, readCondition (writeCondition p) = some c) ↔ IsWrittenNumber (numeral 2.5)) := by
  have hbuild : build ⟨7⟩ ["more than 2.5"] false 0 = (.applied ⟨[⟨⟨7⟩, 1⟩],
      [numericCondition [(.gt, 2.5)] false ⟨⟨7⟩, 1⟩]⟩, 1) :=
    build_numeric_singleton (by decide +kernel) (by decide +kernel)
  have hread := (isWrittenNumber_of_build hbuild List.mem_cons_self).1
  rw [numbers_numericCondition] at hread
  exact ⟨hbuild, by simpa using hread⟩

/-- A number of 310 digits becomes an infinity, with which the condition cannot be read. -/
theorem numeral_eq_inf_of_build :
    let token := String.ofList ("more than 1".toList ++ List.replicate 309 '0')
    let p := numericCondition [(.gt, 1 / 0)] false ⟨⟨7⟩, 1⟩
    build ⟨7⟩ [token] false 0 = (.applied ⟨[⟨⟨7⟩, 1⟩], [p]⟩, 1) ∧ numbers p = [1 / 0] ∧
      numeral (1 / 0) = "inf".toList ∧ ¬ IsWrittenNumber (numeral (1 / 0)) ∧
      readCondition (writeCondition p) = none := by
  have hinfinite : (1 / 0 : Float).isFinite = false := by decide +kernel
  have hreading : Reading.of (1 / 0) = .infinite false := by decide +kernel
  refine ⟨build_numeric_singleton ?_ ?_, numbers_numericCondition, numeral_of_infinite hreading, ?_, ?_⟩
  · rw [Kind.of, List.headD_cons, String.toList_ofList]
    decide +kernel
  · rw [numericComparison?, String.toList_ofList]
    decide +kernel
  · rw [isWrittenNumber_numeral_iff, hinfinite]
    exact Bool.false_ne_true
  · exact readCondition_of_breaks (breaks_numericCondition ⟨1 / 0, by simp, by simp [hinfinite]⟩)

end Build

end ComputedField.Sql
