import ComputedField.Filter.Build

/-!
# Joins of a search

All filters of a search share one counter of keys. What a single filter does to the counter is said
once, by `Takes`; that the joins of a search never share a name, and that its conditions read through
joins of their own filter, follows for any number of filters.
-/

namespace ComputedField.Filter

mutual

def Predicate.columns : Predicate → List ColumnRef
  | .compare c _ _ | .oneOf c _ | .like c _ _ | .fullText c _ | .regex c _ _ => [c]
  | .and items | .or items => columnsOfAll items
  | .not item => item.columns

def columnsOfAll : List Predicate → List ColumnRef
  | [] => []
  | p :: rest => p.columns ++ columnsOfAll rest

end

/-- Whether no group and no list of values in a condition is empty. -/
def Predicate.IsFilled : Predicate → Prop
  | .oneOf _ values => values ≠ []
  | .and items | .or items => items ≠ [] ∧ ∀ p ∈ items, p.IsFilled
  | .not item => item.IsFilled
  | _ => True

/-- A fragment whose joins have the keys after a counter and whose conditions read through them. -/
structure Fragment.FitsAfter (f : Fragment) (counter : Nat) : Prop where
  joined : f.joins ≠ []
  conditioned : f.conditions ≠ []
  keys : f.joins.map (·.key) = List.range' (counter + 1) f.joins.length
  own : ∀ p ∈ f.conditions, ∀ c ∈ p.columns, c.join ∈ f.joins
  filled : ∀ p ∈ f.conditions, p.IsFilled

/-- What a filter may come to after a counter, together with the counter behind it. -/
inductive Takes (counter : Nat) : Outcome × Nat → Prop where
  | nothing : Takes counter (.skip, counter)
  | keys {f : Fragment} (fits : f.FitsAfter counter) :
      Takes counter (.applied f, counter + f.joins.length)

/-- A condition without empty groups that reads through one join only. -/
structure Predicate.IsOn (p : Predicate) (join : Join) : Prop where
  own : ∀ c ∈ p.columns, c.join = join
  filled : p.IsFilled

section Conditions

variable {join : Join} {first second column : Column} {test : ColumnRef → Predicate} {p : Predicate}

theorem mem_columnsOfAll {ps : List Predicate} {c : ColumnRef} :
    c ∈ columnsOfAll ps ↔ ∃ p ∈ ps, c ∈ p.columns := by
  induction ps with
  | nil => simp [columnsOfAll]
  | cons p rest ih => simp [columnsOfAll, ih]

/-- Without a list of values, what is asked of one column has nothing that could be empty. -/
theorem isFilled_of_single (c : ColumnRef) :
    (∀ op value, (Predicate.compare c op value).IsFilled) ∧
      (∀ kind text, (Predicate.like c kind text).IsFilled) ∧
      (∀ query, (Predicate.fullText c query).IsFilled) ∧
      ∀ pattern negated, (Predicate.regex c pattern negated).IsFilled := by
  simp [Predicate.IsFilled]

theorem isOn_of_columns (hc : p.columns = [⟨join, column⟩]) (hf : p.IsFilled) : p.IsOn join := by
  refine ⟨fun c hmem => ?_, hf⟩
  rw [hc, List.mem_singleton] at hmem
  rw [hmem]

/-- A group of conditions on one join is on it, if it has any. -/
theorem isOn_group {ps : List Predicate} (hne : ps ≠ []) (h : ∀ p ∈ ps, p.IsOn join) (all : Bool) :
    (if all then Predicate.and ps else Predicate.or ps).IsOn join := by
  have hown : ∀ c ∈ columnsOfAll ps, c.join = join := by
    intro c hc
    obtain ⟨p, hp, hc⟩ := mem_columnsOfAll.mp hc
    exact (h p hp).own c hc
  have hfilled : ps ≠ [] ∧ ∀ p ∈ ps, p.IsFilled := ⟨hne, fun p hp => (h p hp).filled⟩
  cases all with
  | false => exact ⟨hown, by simpa [Predicate.IsFilled] using hfilled⟩
  | true => exact ⟨hown, by simpa [Predicate.IsFilled] using hfilled⟩

theorem isOn_onBoth (h : ∀ column, (test ⟨join, column⟩).IsOn join) (all : Bool) :
    (if all then Predicate.and (onBoth join first second test)
      else Predicate.or (onBoth join first second test)).IsOn join := by
  refine isOn_group (by simp [onBoth]) (fun p hp => ?_) all
  simp only [onBoth, List.mem_cons, List.not_mem_nil, or_false] at hp
  rcases hp with rfl | rfl
  · exact h first
  · exact h second

theorem Predicate.IsOn.negateIf (h : p.IsOn join) (negate : Bool) : (p.negateIf negate).IsOn join := by
  cases negate with
  | false => exact h
  | true => exact ⟨h.own, by simpa [Predicate.negateIf, Predicate.IsFilled] using h.filled⟩

theorem isOn_regexCondition (pattern : String) (negated : Bool) (join : Join) :
    (regexCondition pattern negated join).IsOn join :=
  isOn_onBoth (fun _ => isOn_of_columns rfl ((isFilled_of_single _).2.2.2 pattern negated)) negated

theorem isOn_fullText (query : String) (negated : Bool) (join : Join) :
    ((Predicate.fullText ⟨join, .value⟩ query).negateIf negated).IsOn join := by
  exact Predicate.IsOn.negateIf (isOn_of_columns rfl ((isFilled_of_single _).2.2.1 query)) negated

theorem isOn_patternCondition (kind : MatchKind) (text : String) (negated : Bool) (join : Join) :
    (patternCondition kind text negated join).IsOn join := by
  refine Predicate.IsOn.negateIf (isOn_onBoth (fun _ => isOn_of_columns rfl ?_) false) negated
  exact (isFilled_of_single _).2.1 kind text

theorem isOn_numericCondition {comparisons : List (Comparison × Float)} (hne : comparisons ≠ [])
    (all : Bool) (join : Join) : (numericCondition comparisons all join).IsOn join := by
  refine isOn_group (by simpa using hne) (fun p hp => ?_) all
  obtain ⟨⟨op, x⟩, -, rfl⟩ := List.mem_map.mp hp
  exact isOn_of_columns rfl ((isFilled_of_single _).1 op (.number x))

theorem isOn_tokenCondition (token : String) (join : Join) : (tokenCondition token join).IsOn join :=
  isOn_onBoth (fun _ => isOn_of_columns rfl ((isFilled_of_single _).1 .eq (.text token))) false

theorem isOn_tokensCondition {tokens : List String} (hne : tokens ≠ []) (join : Join) :
    (tokensCondition tokens join).IsOn join :=
  isOn_onBoth (fun _ => isOn_of_columns rfl (by simpa [Predicate.IsFilled] using hne)) false

end Conditions

section Build

variable {field : FieldId} {counter : Nat}

/-- A filter with one join counts one key, whatever its condition is. -/
theorem takes_applyOne {condition : Join → Predicate} (h : ∀ join, (condition join).IsOn join) :
    Takes counter (applyOne field counter condition) := by
  refine .keys ⟨by simp, by simp, rfl, ?_, ?_⟩
  · intro p hp c hc
    rw [List.mem_singleton] at hp ⊢
    subst hp
    exact (h _).own c hc
  · intro p hp
    rw [List.mem_singleton] at hp
    subst hp
    exact (h _).filled

theorem length_joins_conjunction (counter : Nat) (tokens : List String) :
    (conjunction field counter tokens).joins.length = tokens.length := by
  induction tokens generalizing counter with
  | nil => rfl
  | cons token rest ih => simp [conjunction, ih]

theorem keys_conjunction (counter : Nat) (tokens : List String) :
    (conjunction field counter tokens).joins.map (·.key) =
      List.range' (counter + 1) tokens.length := by
  induction tokens generalizing counter with
  | nil => rfl
  | cons token rest ih => simp [conjunction, ih, List.range'_succ]

/-- No condition reads through the join of another token. -/
theorem exists_isOn_conjunction {tokens : List String} {p : Predicate}
    (hp : p ∈ (conjunction field counter tokens).conditions) :
    ∃ join ∈ (conjunction field counter tokens).joins, p.IsOn join := by
  induction tokens generalizing counter with
  | nil => simp [conjunction] at hp
  | cons token rest ih =>
    rcases List.mem_cons.mp hp with rfl | hp
    · exact ⟨_, List.mem_cons_self, isOn_tokenCondition token _⟩
    · obtain ⟨join, hjoin, hon⟩ := ih hp
      exact ⟨join, List.mem_cons_of_mem _ hjoin, hon⟩

theorem fitsAfter_conjunction {tokens : List String} (hne : tokens ≠ []) :
    (conjunction field counter tokens).FitsAfter counter := by
  obtain ⟨token, rest, rfl⟩ := List.exists_cons_of_ne_nil hne
  refine ⟨by simp [conjunction], by simp [conjunction], ?_, ?_, ?_⟩
  · rw [keys_conjunction, length_joins_conjunction]
  · intro p hp c hc
    obtain ⟨join, hjoin, hon⟩ := exists_isOn_conjunction hp
    rw [hon.own c hc]
    exact hjoin
  · intro p hp
    obtain ⟨join, -, hon⟩ := exists_isOn_conjunction hp
    exact hon.filled

/-- Each kind of filter counts the joins that it adds, or is skipped. -/
theorem takes_buildKind {tokens : List String} (hne : tokens ≠ []) (all : Bool) (kind : Kind) :
    Takes counter (buildKind field tokens all counter kind) := by
  -- A filter that has nothing to ask for is skipped before it takes a key.
  cases kind with
  | regex pattern negated =>
    rw [buildKind]
    split
    · exact .nothing
    · exact takes_applyOne (isOn_regexCondition pattern negated)
  | boolean query negated =>
    rw [buildKind]
    split
    · exact .nothing
    · exact takes_applyOne (isOn_fullText _ negated)
  | pattern kind text negated =>
    rw [buildKind]
    split
    · exact .nothing
    · exact takes_applyOne (isOn_patternCondition kind text negated)
  | numeric =>
    rw [buildKind]
    split
    · exact .nothing
    · rename_i hcomparisons
      exact takes_applyOne (isOn_numericCondition hcomparisons all)
  | conjunctive =>
    have h : (conjunction field counter tokens).FitsAfter counter := fitsAfter_conjunction hne
    rw [buildKind, ← length_joins_conjunction]
    exact .keys h
  | disjunctive => exact takes_applyOne (isOn_tokensCondition hne)

/-- A filter takes a key for each of its joins, and none if it is skipped. -/
theorem takes_build (field : FieldId) (tokens : List String) (all : Bool) (counter : Nat) :
    Takes counter (build field tokens all counter) := by
  unfold build
  split
  · exact .nothing
  · rename_i hne
    exact takes_buildKind (by simpa using hne) all _

end Build

section Names

/-- The number of the field and the key of a join stand in its name on the two sides of the only
underscore. -/
theorem Join.span_name (j : Join) :
    j.name.toList.takeWhile (· != '_') = 't' :: Nat.toDigits 10 j.field.toNat ∧
      j.name.toList.dropWhile (· != '_') = '_' :: Nat.toDigits 10 j.key := by
  have hfield : ∀ c ∈ 't' :: Nat.toDigits 10 j.field.toNat, (c != '_') = true := by
    intro c hc
    rw [bne_iff_ne]
    rintro rfl
    rcases List.mem_cons.mp hc with hc | hc
    · cases hc
    · cases Nat.isDigit_of_mem_toDigits (by decide) (by decide) hc
  rw [j.toList_name, List.takeWhile_append_of_pos hfield, List.dropWhile_append_of_pos hfield]
  simp

/-- Joins of one name have one key. -/
theorem Join.key_of_name {j k : Join} (h : j.name = k.name) : j.key = k.key := by
  have hdigits := j.span_name.2
  rw [h, k.span_name.2, List.cons.injEq] at hdigits
  have hkey : ∀ n, Nat.ofDigitChars 10 (Nat.toDigits 10 n) 0 = n := fun n =>
    Nat.ofDigitChars_toDigits (by decide) (by decide)
  rw [← hkey j.key, ← hdigits.2, hkey]

end Names

structure Request where
  field : FieldId
  tokens : List String
  all : Bool
  deriving DecidableEq, Repr

namespace Combined

def addAll (q : Combined) (rs : List Request) : Combined :=
  rs.foldl (fun q r => (q.add r.field r.tokens r.all).2) q

/-- The keys are those counted so far, in order, and no condition has an empty group. -/
structure Counted (q : Combined) : Prop where
  keys : q.joins.map (·.key) = List.range' 1 q.counter
  filled : ∀ p ∈ q.conditions, p.IsFilled

variable {q : Combined}

theorem counted_empty : empty.Counted := ⟨rfl, by simp [empty]⟩

/-- A filter changes nothing, or adds a fragment that fits behind what is there. -/
theorem add_cases (q : Combined) (r : Request) :
    q.add r.field r.tokens r.all = (.skip, q) ∨
      ∃ f : Fragment, f.FitsAfter q.counter ∧ q.add r.field r.tokens r.all =
        (.applied f, { q.append f with counter := q.counter + f.joins.length }) := by
  have h := takes_build r.field r.tokens r.all q.counter
  unfold add
  cases hb : build r.field r.tokens r.all q.counter with
  | mk outcome counter =>
    rw [hb] at h
    cases h with
    | nothing => exact .inl rfl
    | keys fits => exact .inr ⟨_, fits, rfl⟩

/-- A filter that is added has keys behind all others, so that they stay in order. -/
theorem Counted.add (h : q.Counted) (r : Request) : (q.add r.field r.tokens r.all).2.Counted := by
  rcases q.add_cases r with hadd | ⟨f, hf, hadd⟩
  · rw [hadd]
    exact h
  · rw [hadd]
    refine ⟨?_, fun p hp => ?_⟩
    · change (q.joins ++ f.joins).map (·.key) = List.range' 1 (q.counter + f.joins.length)
      rw [List.map_append, h.keys, hf.keys, Nat.add_comm q.counter 1, List.range'_append_1]
    · rcases List.mem_append.mp hp with hp | hp
      · exact h.filled p hp
      · exact hf.filled p hp

theorem Counted.addAll (h : q.Counted) (rs : List Request) : (q.addAll rs).Counted := by
  induction rs generalizing q with
  | nil => exact h
  | cons r rest ih => exact ih (h.add r)

/-- Different keys make different names. -/
theorem Counted.nodup_names (h : q.Counted) : (q.joins.map (·.name)).Nodup := by
  have hkeys : (q.joins.map (·.key)).Nodup := by
    rw [h.keys]
    exact List.nodup_range'
  rw [List.Nodup, List.pairwise_map] at hkeys ⊢
  exact hkeys.imp fun hne hname => hne (Join.key_of_name hname)

end Combined

/-- Whatever filters were added before, the joins have the keys from 1 up to the counter and names of
their own, and no condition has an empty group. The next filter is skipped and leaves the counter, or
adds joins and conditions, takes a key for each of the joins, and reads through these joins only. -/
theorem joins_addAll (rs : List Request) :
    let q := Combined.empty.addAll rs
    q.joins.map (·.key) = List.range' 1 q.counter ∧ (q.joins.map (·.name)).Nodup ∧
      (∀ p ∈ q.conditions, p.IsFilled) ∧
      ∀ r : Request, match q.add r.field r.tokens r.all with
        | (.skip, next) => next = q
        | (.applied f, next) =>
          f.joins ≠ [] ∧ f.conditions ≠ [] ∧ next.counter = q.counter + f.joins.length ∧
            next.joins = q.joins ++ f.joins ∧ next.conditions = q.conditions ++ f.conditions ∧
            (∀ p ∈ f.conditions, ∀ c ∈ p.columns, c.join ∈ f.joins) ∧
            ∀ p ∈ f.conditions, p.IsFilled := by
  intro q
  have h : q.Counted := Combined.counted_empty.addAll rs
  refine ⟨h.keys, h.nodup_names, h.filled, fun r => ?_⟩
  rcases q.add_cases r with hadd | ⟨f, hf, hadd⟩
  · rw [hadd]
  · rw [hadd]
    exact ⟨hf.joined, hf.conditioned, rfl, rfl, rfl, hf.own, hf.filled⟩

end ComputedField.Filter
