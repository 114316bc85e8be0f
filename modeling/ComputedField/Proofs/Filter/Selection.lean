import ComputedField.Proofs.Filter.FirstToken

/-!
# What a filter selects

Where every join of a field gives the same record, a filter by values selects the records that have
all, or some, of its tokens as handle or value, and a numeric filter those whose value meets all, or
some, of the comparisons that its tokens spell. What is selected when everything counts is selected
all the more when anything counts.
-/

namespace ComputedField.Filter

structure Row where
  handle : String
  value : String
  deriving DecidableEq, Repr

def Row.text (r : Row) : Column → String
  | .handle => r.handle
  | .value => r.value

/-- What a database makes of a text: the number it counts for, whether it answers a full-text query,
and whether it matches a regular expression. -/
structure Database where
  number : String → Float
  answers : String → String → Bool
  matchesRegex : String → String → Bool

section Tests

def Comparison.holds {α : Type} [BEq α] [LT α] [LE α] [DecidableLT α] [DecidableLE α]
    (op : Comparison) (a b : α) : Bool :=
  match op with
  | .eq => a == b
  | .lt => a < b
  | .le => a ≤ b
  | .gt => b < a
  | .ge => b ≤ a

/-- Compares a text with a literal; for a number, the text counts as a number too. -/
def Literal.compares (db : Database) (op : Comparison) (s : String) : Literal → Bool
  | .text t => op.holds s t
  | .number x => op.holds (db.number s) x

def MatchKind.finds (kind : MatchKind) (text s : String) : Bool :=
  match kind with
  | .startsWith => text.toList.isPrefixOf s.toList
  | .endsWith => text.toList.isSuffixOf s.toList
  | .contains => Text.occursIn text.toList s.toList

/-- The tests that the record passes, whichever join it is read through. -/
def Row.passes (db : Database) (r : Row) (column : ColumnRef) : Test → Bool
  | .compare op value => value.compares db op (r.text column.column)
  | .oneOf values => values.any (·.compares db .eq (r.text column.column))
  | .like kind text => kind.finds text (r.text column.column)
  | .fullText query => db.answers query (r.text column.column)
  | .regex pattern => db.matchesRegex pattern (r.text column.column)

end Tests

/-- A skipped filter accepts every record. -/
def Outcome.accepts (db : Database) (r : Row) : Outcome → Bool
  | .applied f => f.holds (r.passes db)
  | .skip => true

/-- The token is the handle or the value. -/
def Row.Has (r : Row) (token : String) : Prop := r.handle = token ∨ r.value = token

def Row.Meets (db : Database) (r : Row) (c : Comparison × Float) : Prop :=
  c.1.holds (db.number r.value) c.2 = true

section Values

variable {db : Database} {r : Row} {field : FieldId}

theorem holds_tokenCondition_iff {token : String} {join : Join} :
    (tokenCondition token join).holds (r.passes db) = true ↔ r.Has token := by
  rw [holds_tokenCondition, Bool.or_eq_true]
  simp only [Row.passes, Literal.compares, Comparison.holds, Row.text, beq_iff_eq, Row.Has]

/-- Each token is asked for through its own join, all of which show the same record. -/
theorem holds_conjunction_iff (counter : Nat) (tokens : List String) :
    (conjunction field counter tokens).holds (r.passes db) = true ↔ ∀ t ∈ tokens, r.Has t := by
  induction tokens generalizing counter with
  | nil => simp [conjunction, Fragment.holds]
  | cons token rest ih =>
    have hrest := ih (counter + 1)
    rw [Fragment.holds] at hrest ⊢
    rw [conjunction, List.all_cons, Bool.and_eq_true, holds_tokenCondition_iff, hrest,
      List.forall_mem_cons]

/-- One join is enough to ask for any of the tokens. -/
theorem holds_tokensCondition_iff {tokens : List String} {join : Join} :
    (tokensCondition tokens join).holds (r.passes db) = true ↔ ∃ t ∈ tokens, r.Has t := by
  have hcolumn : ∀ column, r.passes db ⟨join, column⟩ (.oneOf (tokens.map .text)) = true ↔
      r.text column ∈ tokens := by
    intro column
    simp only [Row.passes, List.any_map, List.any_eq_true, Function.comp_apply, Literal.compares,
      Comparison.holds, beq_iff_eq]
    constructor
    · rintro ⟨t, ht, he⟩
      rw [he]
      exact ht
    · intro ht
      exact ⟨_, ht, rfl⟩
  rw [holds_tokensCondition, Bool.or_eq_true, hcolumn, hcolumn]
  constructor
  · rintro (h | h)
    · exact ⟨_, h, .inl rfl⟩
    · exact ⟨_, h, .inr rfl⟩
  · rintro ⟨t, ht, rfl | rfl⟩
    · exact .inl ht
    · exact .inr ht

theorem holds_numericCondition_iff {comparisons : List (Comparison × Float)} {all : Bool}
    {join : Join} : (numericCondition comparisons all join).holds (r.passes db) = true ↔
      if all then ∀ c ∈ comparisons, r.Meets db c else ∃ c ∈ comparisons, r.Meets db c := by
  rw [holds_numericCondition]
  cases all with
  | false => exact List.any_eq_true
  | true => exact List.all_eq_true

end Values

section Build

variable {db : Database} {r : Row} {field : FieldId} {counter : Nat} {tokens : List String}
  {all : Bool}

theorem accepts_applyOne (condition : Join → Predicate) :
    (applyOne field counter condition).1.accepts db r =
      (condition ⟨field, counter + 1⟩).holds (r.passes db) := by
  rw [applyOne, Outcome.accepts, Fragment.holds, List.all_cons, List.all_nil, Bool.and_true]

/-- The comparisons that the tokens of a numeric filter spell; other tokens are as good as absent. -/
def comparisonsOf (tokens : List String) : List (Comparison × Float) :=
  tokens.filterMap numericComparison?

theorem buildKind_numeric (h : comparisonsOf tokens ≠ []) (all : Bool) :
    buildKind field tokens all counter .numeric =
      applyOne field counter (numericCondition (comparisonsOf tokens) all) := by
  rw [buildKind]
  split
  · rename_i hnone
    exact absurd hnone h
  · rfl

theorem buildKind_numeric_nil (h : comparisonsOf tokens = []) (all : Bool) :
    buildKind field tokens all counter .numeric = (.skip, counter) := by
  rw [buildKind]
  split
  · rfl
  · rename_i hsome
    exact absurd h hsome

theorem build_of_ne_nil (h : tokens ≠ []) (all : Bool) :
    build field tokens all counter = buildKind field tokens all counter (Kind.of tokens all) := by
  rw [build, if_neg (by simpa using h)]

/-- Of the kinds that a marker gives, only the numeric one asks whether everything counts, and it does
so when it is known that something is left to ask for. -/
theorem accepts_buildKind_mono (kind : Kind) :
    ((buildKind field tokens true counter kind).1 = .skip ↔
      (buildKind field tokens false counter kind).1 = .skip) ∧
    ((buildKind field tokens true counter kind).1.accepts db r = true →
      (buildKind field tokens false counter kind).1.accepts db r = true) := by
  cases kind with
  | numeric =>
    by_cases h : comparisonsOf tokens = []
    · rw [buildKind_numeric_nil h, buildKind_numeric_nil h]
      exact ⟨Iff.rfl, id⟩
    · rw [buildKind_numeric h, buildKind_numeric h, accepts_applyOne, accepts_applyOne,
        holds_numericCondition_iff, holds_numericCondition_iff]
      refine ⟨by simp [applyOne], fun hall => ?_⟩
      obtain ⟨c, hc⟩ := List.exists_mem_of_ne_nil _ h
      exact ⟨c, hc, hall c hc⟩
  | regex pattern negated => exact ⟨Iff.rfl, id⟩
  | boolean query negated => exact ⟨Iff.rfl, id⟩
  | pattern kind text negated => exact ⟨Iff.rfl, id⟩
  | conjunctive => exact ⟨Iff.rfl, id⟩
  | disjunctive => exact ⟨Iff.rfl, id⟩

/-- Whether everything counts has a say only where nothing marks the kind. -/
theorem Kind.of_cases (tokens : List String) :
    (∃ kind, ∀ all, Kind.of tokens all = kind) ∨
      Kind.of tokens true = .conjunctive ∧ Kind.of tokens false = .disjunctive := by
  simp only [Kind.of]
  cases markedKind? (tokens.headD "").toList tokens.tail with
  | none => exact .inr ⟨rfl, rfl⟩
  | some kind => exact .inl ⟨kind, fun _ => rfl⟩

theorem accepts_buildKind_conjunctive :
    (buildKind field tokens true counter .conjunctive).1.accepts db r = true ↔
      ∀ t ∈ tokens, r.Has t :=
  holds_conjunction_iff counter tokens

theorem accepts_buildKind_disjunctive :
    (buildKind field tokens false counter .disjunctive).1.accepts db r = true ↔
      ∃ t ∈ tokens, r.Has t := by
  rw [buildKind, accepts_applyOne]
  exact holds_tokensCondition_iff

/-- What has everything has something, given that there is something to have. -/
theorem accepts_build_mono :
    ((build field tokens true counter).1 = .skip ↔ (build field tokens false counter).1 = .skip) ∧
    ((build field tokens true counter).1.accepts db r = true →
      (build field tokens false counter).1.accepts db r = true) := by
  by_cases h : tokens = []
  · subst h
    exact ⟨Iff.rfl, id⟩
  · rw [build_of_ne_nil h, build_of_ne_nil h]
    rcases Kind.of_cases tokens with ⟨kind, hkind⟩ | ⟨hall, hany⟩
    · rw [hkind, hkind]
      exact accepts_buildKind_mono kind
    · rw [hall, hany, accepts_buildKind_conjunctive, accepts_buildKind_disjunctive]
      refine ⟨by simp [buildKind, applyOne], fun hhas => ?_⟩
      obtain ⟨t, ht⟩ := List.exists_mem_of_ne_nil _ h
      exact ⟨t, ht, hhas t ht⟩

/-- A numeric filter is skipped if none of its tokens spells a comparison, and asks for those that are
spelled. -/
theorem build_numeric (hkind : Kind.of tokens all = .numeric) :
    ((build field tokens all counter).1 = .skip ↔ ∀ t ∈ tokens, numericComparison? t = none) ∧
    ((build field tokens all counter).1 ≠ .skip →
      ((build field tokens all counter).1.accepts db r = true ↔
        if all then ∀ c ∈ comparisonsOf tokens, r.Meets db c
        else ∃ c ∈ comparisonsOf tokens, r.Meets db c)) := by
  by_cases h : tokens = []
  · subst h
    simp [build]
  · rw [build_of_ne_nil h, hkind, ← List.filterMap_eq_nil_iff]
    by_cases hnone : comparisonsOf tokens = []
    · rw [buildKind_numeric_nil hnone]
      exact ⟨⟨fun _ => hnone, fun _ => rfl⟩, fun hskip => absurd rfl hskip⟩
    · rw [buildKind_numeric hnone, accepts_applyOne, holds_numericCondition_iff]
      exact ⟨⟨fun hskip => (by cases hskip), fun heq => absurd heq hnone⟩, fun _ => Iff.rfl⟩

/-- Of plain tokens none is left out: each one is asked for. -/
theorem build_isPlain {first : String} {others : List String} (h : IsPlain first.toList) (all : Bool) :
    (build field (first :: others) all counter).1 ≠ .skip ∧
      ((build field (first :: others) all counter).1.accepts db r = true ↔
        if all then ∀ t ∈ first :: others, r.Has t else ∃ t ∈ first :: others, r.Has t) := by
  rw [build_of_ne_nil (List.cons_ne_nil first others), Kind.of_isPlain h]
  cases all with
  | false => exact ⟨by simp [buildKind, applyOne], accepts_buildKind_disjunctive⟩
  | true => exact ⟨by simp [buildKind], accepts_buildKind_conjunctive⟩

/-- On a record, tokens of which the first has neither a marker nor a numeric phrase ask that all of them,
or some, are its handle or value. Behind a numeric phrase they ask that all of those which spell a
comparison, or some, hold of its value; they are skipped if none spells one. Of any tokens, what is
accepted when everything counts is accepted when anything counts, and both are skipped or neither. -/
theorem accepts_build (db : Database) (r : Row) (field : FieldId) (tokens : List String)
    (counter : Nat) :
    (∀ first ∈ tokens.head?, IsPlain first.toList → ∀ all,
      (build field tokens all counter).1 ≠ .skip ∧
      ((build field tokens all counter).1.accepts db r = true ↔
        if all then ∀ t ∈ tokens, r.Has t else ∃ t ∈ tokens, r.Has t)) ∧
    (∀ first ∈ tokens.head?, IsNumericPhrase first.toList → ∀ all,
      ((build field tokens all counter).1 = .skip ↔ ∀ t ∈ tokens, numericComparison? t = none) ∧
      ((build field tokens all counter).1 ≠ .skip →
        ((build field tokens all counter).1.accepts db r = true ↔
          if all then ∀ c ∈ comparisonsOf tokens, r.Meets db c
          else ∃ c ∈ comparisonsOf tokens, r.Meets db c))) ∧
    ((build field tokens true counter).1 = .skip ↔ (build field tokens false counter).1 = .skip) ∧
    ((build field tokens true counter).1.accepts db r = true →
      (build field tokens false counter).1.accepts db r = true) := by
  cases tokens with
  | nil => exact ⟨nofun, nofun, accepts_build_mono⟩
  | cons first others =>
    refine ⟨fun token htoken hplain => ?_, fun token htoken hphrase => ?_, accepts_build_mono⟩
    · cases htoken
      exact build_isPlain hplain
    · cases htoken
      exact fun all => build_numeric (Kind.of_isNumericPhrase hphrase all)

/-- A phrase that comes second is a value like any other, and what comes second behind a phrase counts
only if it is one too. -/
theorem accepts_build_phrase_second :
    let db : Database := ⟨fun s => if s = "about 5" then 5 else 0, fun _ _ => false, fun _ _ => false⟩
    let r : Row := ⟨"about-5", "about 5"⟩
    let plain := ["about 5", "more than 4"]
    let numeric := ["more than 4", "about 5"]
    IsPlain "about 5".toList ∧ IsNumericPhrase "more than 4".toList ∧
      (build ⟨7⟩ plain true 0).1.accepts db r = false ∧ (build ⟨7⟩ plain false 0).1.accepts db r = true ∧
      (build ⟨7⟩ numeric true 0).1 ≠ .skip ∧ (build ⟨7⟩ numeric true 0).1.accepts db r = true := by
  intro db r plain numeric
  have hplain : IsPlain "about 5".toList := by decide
  have hphrase : IsNumericPhrase "more than 4".toList := by decide
  have hfour : numericComparison? "more than 4" = some (.gt, 4) := by decide +kernel
  have hcomparisons : comparisonsOf numeric = [(.gt, 4)] := by decide +kernel
  have hvalues := (accepts_build db r ⟨7⟩ plain 0).1 _ rfl hplain
  have hnumbers := (accepts_build db r ⟨7⟩ numeric 0).2.1 _ rfl hphrase true
  have hskip : (build ⟨7⟩ numeric true 0).1 ≠ .skip := by
    intro h
    have hnone := hnumbers.1.mp h "more than 4" List.mem_cons_self
    rw [hfour] at hnone
    cases hnone
  refine ⟨hplain, hphrase, Bool.eq_false_iff.mpr fun h => ?_, (hvalues false).2.mpr ?_, hskip,
    (hnumbers.2 hskip).mpr ?_⟩
  · have hall := (hvalues true).2.mp h "more than 4" (by decide)
    rcases hall with hall | hall <;> exact absurd hall (by decide)
  · exact ⟨"about 5", List.mem_cons_self, .inr rfl⟩
  · rw [hcomparisons, if_pos rfl, List.forall_mem_singleton]
    change Comparison.gt.holds (db.number r.value) 4 = true
    decide +kernel

end Build

end ComputedField.Filter
