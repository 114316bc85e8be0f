import ComputedField.Filter.Build

/-!
# What a filter means

A condition holds or not as soon as it is known which tests its columns pass. Any assignment of truth
to tests is allowed where a law holds of every database; where a filter is about one record, the
record decides.
-/

namespace ComputedField.Filter

open Text

inductive Test where
  | compare (op : Comparison) (value : Literal)
  | oneOf (values : List Literal)
  | like (kind : MatchKind) (text : String)
  | fullText (query : String)
  | regex (pattern : String)
  deriving DecidableEq, Repr

mutual

/-- Whether a condition holds, if `v` says which tests the columns pass. -/
def Predicate.holds (v : ColumnRef → Test → Bool) : Predicate → Bool
  | .compare column op value => v column (.compare op value)
  | .oneOf column values => v column (.oneOf values)
  | .like column kind text => v column (.like kind text)
  | .fullText column query => v column (.fullText query)
  | .regex column pattern negated => negated ^^ v column (.regex pattern)
  | .and items => (truths v items).and
  | .or items => (truths v items).or
  | .not item => !item.holds v

def truths (v : ColumnRef → Test → Bool) : List Predicate → List Bool
  | [] => []
  | p :: rest => p.holds v :: truths v rest

end

def Fragment.holds (v : ColumnRef → Test → Bool) (f : Fragment) : Bool :=
  f.conditions.all (·.holds v)

section Conditions

variable {v : ColumnRef → Test → Bool}

theorem truths_eq_map (ps : List Predicate) : truths v ps = ps.map (·.holds v) := by
  induction ps with
  | nil => rfl
  | cons p rest ih => rw [truths, ih, List.map_cons]

theorem holds_and (ps : List Predicate) : (Predicate.and ps).holds v = ps.all (·.holds v) := by
  rw [Predicate.holds, truths_eq_map, List.and, List.all_map]
  rfl

theorem holds_or (ps : List Predicate) : (Predicate.or ps).holds v = ps.any (·.holds v) := by
  rw [Predicate.holds, truths_eq_map, List.or, List.any_map]
  rfl

theorem holds_negateIf (p : Predicate) (negate : Bool) :
    (p.negateIf negate).holds v = (negate ^^ p.holds v) := by
  cases negate <;> simp [Predicate.negateIf, Predicate.holds]

variable (join : Join)

/-- What is asked of two columns of a join is asked of one of them or of the other. -/
theorem any_onBoth (first second : Column) (test : ColumnRef → Predicate) :
    (onBoth join first second test).any (·.holds v) =
      ((test ⟨join, first⟩).holds v || (test ⟨join, second⟩).holds v) := by
  rw [onBoth, List.any_cons, List.any_cons, List.any_nil, Bool.or_false]

theorem holds_regexCondition (pattern : String) (negated : Bool) :
    (regexCondition pattern negated join).holds v =
      (negated ^^ (v ⟨join, .value⟩ (.regex pattern) || v ⟨join, .handle⟩ (.regex pattern))) := by
  cases negated with
  | false =>
    change (Predicate.or _).holds v = _
    rw [holds_or, any_onBoth, Predicate.holds, Predicate.holds]
    simp only [Bool.false_xor]
  | true =>
    change (Predicate.and _).holds v = _
    rw [holds_and]
    simp [onBoth, Predicate.holds]

theorem holds_patternCondition (kind : MatchKind) (text : String) (negated : Bool) :
    (patternCondition kind text negated join).holds v =
      (negated ^^ (v ⟨join, .handle⟩ (.like kind text) || v ⟨join, .value⟩ (.like kind text))) := by
  rw [patternCondition, holds_negateIf, holds_or, any_onBoth]
  rfl

theorem holds_tokenCondition (token : String) : (tokenCondition token join).holds v =
    (v ⟨join, .handle⟩ (.compare .eq (.text token)) ||
      v ⟨join, .value⟩ (.compare .eq (.text token))) := by
  rw [tokenCondition, holds_or, any_onBoth]
  rfl

theorem holds_tokensCondition (tokens : List String) : (tokensCondition tokens join).holds v =
    (v ⟨join, .handle⟩ (.oneOf (tokens.map .text)) ||
      v ⟨join, .value⟩ (.oneOf (tokens.map .text))) := by
  rw [tokensCondition, holds_or, any_onBoth]
  rfl

/-- A comparison is made with the value only, never with the handle. -/
theorem holds_numericCondition (comparisons : List (Comparison × Float)) (all : Bool) :
    (numericCondition comparisons all join).holds v =
      if all then comparisons.all fun c => v ⟨join, .value⟩ (.compare c.1 (.number c.2))
      else comparisons.any fun c => v ⟨join, .value⟩ (.compare c.1 (.number c.2)) := by
  cases all with
  | false =>
    change (Predicate.or _).holds v = _
    rw [holds_or, List.any_map]
    rfl
  | true =>
    change (Predicate.and _).holds v = _
    rw [holds_and, List.all_map]
    rfl

end Conditions

end ComputedField.Filter
