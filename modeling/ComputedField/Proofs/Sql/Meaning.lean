import ComputedField.Proofs.Decimal.ReadBack
import ComputedField.Proofs.Filter.Meaning
import ComputedField.Proofs.Sql.Reader
import ComputedField.Proofs.Sql.Scan
import ComputedField.Sql.Condition
import Mathlib.Tactic.NormNum

/-!
# What a written condition means

A condition is read as what it was written from: the same atoms in the same order, with the very
texts that were given, and the same truth whichever atoms hold.
-/

namespace ComputedField.Sql

open ComputedField.Decimal ComputedField.Filter

def IsWritable : Predicate → Prop
  | .compare _ _ value => IsFinite value
  | .oneOf _ values => values ≠ [] ∧ ∀ l ∈ values, IsFinite l
  | .and items | .or items => ∀ p ∈ items, IsWritable p
  | .not item => IsWritable item
  | _ => True

section Atoms

variable (decimal : Float → ℚ)

/-- The atom that a test of a column is meant as, where `decimal` says as which number a double is
taken. -/
def atomOf (column : ColumnRef) : Test → Atom
  | .compare op value => ⟨column.name, .compare op, [valueOf decimal value]⟩
  | .oneOf values => ⟨column.name, .within, values.map (valueOf decimal)⟩
  | .like kind text =>
    ⟨column.name, .like, [.text (String.ofList (likePattern kind text.toList))]⟩
  | .fullText query => ⟨column.name, .against, [.text query]⟩
  | .regex pattern => ⟨column.name, .regexp, [.text pattern]⟩

mutual

/-- The atoms that a predicate is meant to have, from left to right. -/
def atoms : Predicate → List Atom
  | .compare column op value => [atomOf decimal column (.compare op value)]
  | .oneOf column values => [atomOf decimal column (.oneOf values)]
  | .like column kind text => [atomOf decimal column (.like kind text)]
  | .fullText column query => [atomOf decimal column (.fullText query)]
  | .regex column pattern _ => [atomOf decimal column (.regex pattern)]
  | .and items | .or items => atomsOfAll items
  | .not item => atoms item

def atomsOfAll : List Predicate → List Atom
  | [] => []
  | p :: rest => atoms p ++ atomsOfAll rest

end

/-- Whether a column passes a test, if `v` says which atoms hold. -/
def passes (v : Atom → Bool) (column : ColumnRef) (test : Test) : Bool := v (atomOf decimal column test)

end Atoms

/-- The characters are read as the condition where such a token follows, or none. -/
def ReadAs (reader : Nat → Reader Condition) (follow : Token → Prop) (s : List Char)
    (c : Condition) : Prop :=
  ∃ ts, Scans s ts ∧ ∀ depth rest, ts.length ≤ depth → (∀ t, rest.head? = some t → follow t) →
    Gives (reader depth (ts ++ rest)) c rest

/-- The reader of what a connective joins. -/
def Connective.operand : Connective → Nat → Reader Condition
  | .and, depth => negation (enclosed (condition? depth))
  | .or, depth => joined .and (negation (enclosed (condition? depth)))

/-- The characters are read as the condition whatever follows. -/
def IsOperand : List Char → Condition → Prop :=
  ReadAs Connective.and.operand fun _ => True

/-- The characters are read as the condition up to a closing parenthesis or the end. -/
def IsWhole : List Char → Condition → Prop :=
  ReadAs (fun depth => condition? (depth + 1)) (· = .closeParen)

section Reading

variable {s : List Char} {ts : List Token} {c : Condition} {k : Connective}

theorem head?_ne_of_closeParen {rest : List Token} (h : ∀ t, rest.head? = some t → t = .closeParen)
    (j : Keyword) : rest.head? ≠ some (.keyword j) := by
  intro he
  cases h _ he

/-- What begins with a column or a constant needs no parentheses. -/
theorem isOperand_of_simple {t : Token} (hs : Scans s (t :: ts)) (hnot : t ≠ .keyword .not)
    (hparen : t ≠ .openParen) (h : ∀ rest, Gives (simple (t :: (ts ++ rest))) c rest) :
    IsOperand s c := by
  refine ⟨t :: ts, hs, fun depth rest _ _ => ?_⟩
  have he : Connective.and.operand depth (t :: (ts ++ rest)) = simple (t :: (ts ++ rest)) := by
    change negation _ _ = _
    rw [negation, enclosed]
    · intro tail ht
      cases ht
      exact hparen rfl
    · intro tail ht
      cases ht
      exact hnot rfl
  rw [List.cons_append, he]
  exact h rest

theorem IsOperand.not (h : IsOperand s c) : IsOperand ("NOT ".toList ++ s) (.not c) := by
  obtain ⟨ts, hs, hread⟩ := h
  refine ⟨.keyword .not :: ts, (scans_keyword .not).then_blank hs, fun depth rest hd hrest => ?_⟩
  exact gives_negation (hread depth rest (Nat.le_of_succ_le hd) hrest)

/-- An operand may stand where others are joined to it. -/
theorem IsOperand.follows (h : IsOperand s c) (k : Connective) :
    ReadAs k.operand (fun t => t = .closeParen ∨ t = .keyword k.keyword) s c := by
  obtain ⟨ts, hs, hread⟩ := h
  refine ⟨ts, hs, fun depth rest hd hrest => ?_⟩
  have hg := hread depth rest hd fun _ _ => trivial
  cases k with
  | and => exact hg
  | or =>
    refine gives_joined_one hg ?_
    intro he
    rcases hrest _ he with hc | hc <;> cases hc

/-- What is joined with both connectives may stand in parentheses. -/
theorem IsWhole.of_joined (h : ReadAs (fun depth => joined k (k.operand depth)) (· = .closeParen) s c) :
    IsWhole s c := by
  obtain ⟨ts, hs, hread⟩ := h
  refine ⟨ts, hs, fun depth rest hd hrest => ?_⟩
  have hg := hread depth rest hd hrest
  cases k with
  | and => exact gives_joined_one hg (head?_ne_of_closeParen hrest _)
  | or => exact hg

theorem IsOperand.whole (h : IsOperand s c) : IsWhole s c := by
  obtain ⟨ts, hs, hread⟩ := h
  refine IsWhole.of_joined (k := .and) ⟨ts, hs, fun depth rest hd hrest => ?_⟩
  exact gives_joined_one (hread depth rest hd fun _ _ => trivial) (head?_ne_of_closeParen hrest _)

/-- In parentheses a whole becomes an operand. -/
theorem IsWhole.parenthesized (h : IsWhole s c) : IsOperand ('(' :: s ++ [')']) c := by
  obtain ⟨ts, hs, hread⟩ := h
  refine ⟨.openParen :: ts ++ [.closeParen], hs.openParen.then_closeParen, fun depth rest hd _ => ?_⟩
  cases depth with
  | zero => cases hd
  | succ depth =>
    rw [List.length_append, List.length_cons] at hd
    have hg := hread depth (.closeParen :: rest) (by omega) fun t ht => (Option.some_inj.mp ht).symm
    rw [List.append_assoc]
    exact gives_enclosed hg

end Reading

section Groups

/-- What joined conditions come to. -/
def Connective.fold : Connective → List Bool → Bool
  | .and => List.and
  | .or => List.or

/-- A condition that is joined in front has a say in the truth of all. -/
theorem Connective.holds_join (k : Connective) {v : Atom → Bool} {c d : Condition} {bs : List Bool}
    (h : d.holds v = k.fold bs) : (k.join c d).holds v = k.fold (c.holds v :: bs) := by
  cases k with
  | and =>
    change (c.holds v && d.holds v) = _
    rw [h]
    exact List.and_cons.symm
  | or =>
    change (c.holds v || d.holds v) = _
    rw [h]
    exact List.or_cons.symm

theorem Connective.atoms_join (k : Connective) (c d : Condition) :
    (k.join c d).atoms = c.atoms ++ d.atoms := by
  cases k <;> rfl

def Connective.separator (k : Connective) : List Char := ' ' :: k.keyword.spelling.toList ++ [' ']

/-- The characters are read as one condition, which has the atoms and the truth of all. -/
def IsJoined (k : Connective) (s : List Char) (cs : List Condition) : Prop :=
  ∃ c, ReadAs (fun depth => joined k (k.operand depth)) (· = .closeParen) s c ∧
    c.atoms = cs.flatMap Condition.atoms ∧ ∀ v, c.holds v = k.fold (cs.map (·.holds v))

section Joined

variable {k : Connective} {s u : List Char} {c : Condition} {cs : List Condition}

theorem IsOperand.joined_one (h : IsOperand s c) (k : Connective) : IsJoined k s [c] := by
  obtain ⟨ts, hs, hread⟩ := h.follows k
  refine ⟨c, ⟨ts, hs, fun depth rest hd hrest => ?_⟩, ?_, fun v => ?_⟩
  · exact gives_joined_one (hread depth rest hd fun t ht => .inl (hrest t ht))
      (head?_ne_of_closeParen hrest _)
  · simp
  · cases k <;> simp [Connective.fold]

/-- One more operand in front, with its connective, is read with the others. -/
theorem IsOperand.joined_cons (h : IsOperand s c) (hu : IsJoined k u cs) :
    IsJoined k (s ++ k.separator ++ u) (c :: cs) := by
  obtain ⟨ts, hs, hread⟩ := h.follows k
  obtain ⟨d, ⟨us, hus, hreads⟩, hatoms, hholds⟩ := hu
  refine ⟨k.join c d, ⟨ts ++ .keyword k.keyword :: us, ?_, fun depth rest hd hrest => ?_⟩, ?_,
    fun v => k.holds_join (hholds v)⟩
  · have hsep := hs.then_blank ((scans_keyword k.keyword).then_blank hus)
    simpa [Connective.separator] using hsep
  · rw [List.length_append, List.length_cons] at hd
    have hfirst := hread depth (.keyword k.keyword :: (us ++ rest)) (by omega)
      fun t ht => .inr (Option.some_inj.mp ht).symm
    have hothers := hreads depth rest (by omega) hrest
    rw [List.append_assoc]
    exact gives_joined_cons hfirst hothers
  · rw [Connective.atoms_join, hatoms]
    rfl

/-- Operands with their connective between them are read as one condition. -/
theorem isJoined_intercalate (k : Connective) {ss : List (List Char)} (h : IsOperand s c)
    (hs : List.Forall₂ IsOperand ss cs) :
    IsJoined k (k.separator.intercalate (s :: ss)) (c :: cs) := by
  induction hs generalizing s c with
  | nil =>
    rw [List.intercalate_singleton]
    exact h.joined_one k
  | cons second others ih =>
    rw [List.intercalate_cons_cons]
    exact h.joined_cons (ih second)

end Joined

/-- A group is read as an operand, also without anything in it. -/
theorem exists_group (k : Connective) {ss : List (List Char)} {cs : List Condition}
    (h : List.Forall₂ IsOperand ss cs) {constant : String}
    (hconstant : IsOperand constant.toList (.constant (k.fold []))) :
    ∃ c, IsOperand (group k.keyword.spelling constant ss) c ∧
      c.atoms = cs.flatMap Condition.atoms ∧ ∀ v, c.holds v = k.fold (cs.map (·.holds v)) := by
  cases h with
  | nil => exact ⟨_, hconstant, rfl, fun v => rfl⟩
  | cons first others =>
    obtain ⟨c, hc, hmeans⟩ := isJoined_intercalate k first others
    exact ⟨c, (IsWhole.of_joined hc).parenthesized, hmeans⟩

end Groups

section Simple

variable (c : ColumnRef) (s : String)

theorem isOperand_true : IsOperand "TRUE".toList (.constant true) :=
  isOperand_of_simple (scans_keyword .yes) (by simp) (by simp) fun _ => ⟨_, rfl, rfl⟩

theorem isOperand_false : IsOperand "FALSE".toList (.constant false) :=
  isOperand_of_simple (scans_keyword .no) (by simp) (by simp) fun _ => ⟨_, rfl, rfl⟩

theorem isOperand_compare (op : Comparison) {l : Literal} (hl : IsFinite l) :
    IsOperand (condition (.compare c op l)) (.atom ⟨c.name, .compare op, [valueOf written l]⟩) := by
  have h := ((scans_column c).then_blank (scans_comparison op)).then_blank (scans_literal hl)
  exact isOperand_of_simple h (by simp) (by simp) fun _ => ⟨_, rfl, rfl⟩

/-- A pattern is read with the wildcards around it, and its text is the escaped one. -/
theorem isOperand_like (kind : MatchKind) :
    IsOperand (condition (.like c kind s))
      (.atom ⟨c.name, .like, [.text (String.ofList (likePattern kind s.toList))]⟩) := by
  have h := ((scans_column c).then_blank (scans_keyword .like)).then_blank
    (scans_text (likePattern kind s.toList))
  have he : condition (.like c kind s) =
      (c.name.toList ++ ' ' :: Keyword.like.spelling.toList) ++
        ' ' :: quoted (likePattern kind s.toList) := by
    change c.name.toList ++ " LIKE ".toList ++ quoted (likePattern kind s.toList) = _
    simp [Keyword.spelling]
  rw [he]
  exact isOperand_of_simple h (by simp) (by simp) fun _ => ⟨_, rfl, rfl⟩

/-- A regular expression is read as it is, negated or not. -/
theorem isOperand_regex (negated : Bool) :
    IsOperand (condition (.regex c s negated))
      (if negated then .not (.atom ⟨c.name, .regexp, [.text s]⟩)
        else .atom ⟨c.name, .regexp, [.text s]⟩) := by
  have htext := scans_text s.toList
  rw [String.ofList_toList] at htext
  cases negated with
  | false =>
    have h := ((scans_column c).then_blank (scans_keyword .regexp)).then_blank htext
    have he : condition (.regex c s false) =
        (c.name.toList ++ ' ' :: Keyword.regexp.spelling.toList) ++ ' ' :: quoted s.toList := by
      change c.name.toList ++ " REGEXP ".toList ++ quoted s.toList = _
      simp [Keyword.spelling]
    rw [he]
    exact isOperand_of_simple h (by simp) (by simp) fun _ => ⟨_, rfl, rfl⟩
  | true =>
    have h := (((scans_column c).then_blank (scans_keyword .not)).then_blank
      (scans_keyword .regexp)).then_blank htext
    have he : condition (.regex c s true) =
        (c.name.toList ++ ' ' :: Keyword.not.spelling.toList ++
          ' ' :: Keyword.regexp.spelling.toList) ++ ' ' :: quoted s.toList := by
      change c.name.toList ++ " NOT REGEXP ".toList ++ quoted s.toList = _
      simp [Keyword.spelling]
    rw [he]
    exact isOperand_of_simple h (by simp) (by simp) fun _ => ⟨_, rfl, rfl⟩

theorem isOperand_fullText :
    IsOperand (condition (.fullText c s)) (.atom ⟨c.name, .against, [.text s]⟩) := by
  have htext := scans_text s.toList
  rw [String.ofList_toList] at htext
  have hmode := ((htext.then_blank (scans_keyword .within)).then_blank
    (scans_keyword .boolean)).then_blank (scans_keyword .mode)
  have h := ((scans_keyword .matching).then_blank (scans_column c).openParen.then_closeParen).then_blank
    ((scans_keyword .against).then_blank hmode.openParen.then_closeParen)
  have he : condition (.fullText c s) =
      (Keyword.matching.spelling.toList ++ ' ' :: ('(' :: c.name.toList ++ [')'])) ++
        ' ' :: (Keyword.against.spelling.toList ++
          ' ' :: ('(' :: (quoted s.toList ++ ' ' :: Keyword.within.spelling.toList ++
            ' ' :: Keyword.boolean.spelling.toList ++ ' ' :: Keyword.mode.spelling.toList) ++
              [')'])) := by
    change "MATCH (".toList ++ c.name.toList ++ ") AGAINST (".toList ++ quoted s.toList
      ++ " IN BOOLEAN MODE)".toList = _
    simp [Keyword.spelling]
  rw [he]
  exact isOperand_of_simple h (by simp) (by simp) fun _ => ⟨_, rfl, rfl⟩

/-- Values are read one by one, with a comma between each and the next. -/
theorem exists_values {l : Literal} {ls : List Literal} (hl : ∀ x ∈ l :: ls, IsFinite x) :
    ∃ ts, Scans ([',', ' '].intercalate ((l :: ls).map literal) ++ [')']) ts ∧
      ∀ rest, Gives (values (ts ++ rest)) ((l :: ls).map (valueOf written)) rest := by
  induction ls generalizing l with
  | nil =>
    refine ⟨[.value (valueOf written l), .closeParen], ?_, gives_values_one (valueOf written l)⟩
    rw [List.map_singleton, List.intercalate_singleton]
    exact (scans_literal (hl l List.mem_cons_self)).then_closeParen
  | cons m ls ih =>
    obtain ⟨ts, hs, hread⟩ := ih fun x hx => hl x (List.mem_cons_of_mem l hx)
    refine ⟨.value (valueOf written l) :: .comma :: ts, ?_, fun rest => ?_⟩
    · have h := (scans_literal (hl l List.mem_cons_self)).then_comma hs
      simpa using h
    · exact gives_values_cons (hread rest)

/-- A list of values is read in full. -/
theorem isOperand_oneOf {ls : List Literal} (hne : ls ≠ []) (hl : ∀ l ∈ ls, IsFinite l) :
    IsOperand (condition (.oneOf c ls)) (.atom ⟨c.name, .within, ls.map (valueOf written)⟩) := by
  obtain ⟨l, ls, rfl⟩ := List.exists_cons_of_ne_nil hne
  obtain ⟨ts, hs, hread⟩ := exists_values hl
  have h := ((scans_column c).then_blank (scans_keyword .within)).then_blank hs.openParen
  have he : condition (.oneOf c (l :: ls)) =
      (c.name.toList ++ ' ' :: Keyword.within.spelling.toList) ++
        ' ' :: ('(' :: ([',', ' '].intercalate ((l :: ls).map literal) ++ [')'])) := by
    change c.name.toList ++ " IN (".toList ++ [',', ' '].intercalate ((l :: ls).map literal)
      ++ [')'] = _
    simp [Keyword.spelling]
  rw [he]
  exact isOperand_of_simple h (by simp) (by simp) fun rest => gives_simple_within (hread rest)

end Simple

theorem IsOperand.not_parenthesized {s : List Char} {c : Condition} (h : IsOperand s c) :
    IsOperand ("NOT (".toList ++ s ++ [')']) (.not c) :=
  h.whole.parenthesized.not

mutual

/-- Every predicate is read as an operand with its atoms and its truth. -/
theorem exists_operand (p : Predicate) (hp : IsWritable p) :
    ∃ c, IsOperand (condition p) c ∧ c.atoms = atoms written p ∧
      ∀ v, c.holds v = p.holds (passes written v) := by
  match p with
  | .compare column op value =>
    rw [IsWritable] at hp
    exact ⟨_, isOperand_compare column op hp, rfl, fun v => rfl⟩
  | .oneOf column values =>
    rw [IsWritable] at hp
    exact ⟨_, isOperand_oneOf column hp.1 hp.2, rfl, fun v => rfl⟩
  | .like column kind text => exact ⟨_, isOperand_like column text kind, rfl, fun v => rfl⟩
  | .fullText column query => exact ⟨_, isOperand_fullText column query, rfl, fun v => rfl⟩
  | .regex column pattern negated =>
    refine ⟨_, isOperand_regex column pattern negated, ?_, fun v => ?_⟩
    · cases negated <;> rfl
    · cases negated with
      | false => exact (Bool.false_xor _).symm
      | true => exact (Bool.true_xor _).symm
  | .and items =>
    rw [IsWritable] at hp
    obtain ⟨cs, hcs, hatoms, htruths⟩ := exists_operands items hp
    obtain ⟨c, hc, ha, hv⟩ := exists_group .and hcs isOperand_true
    refine ⟨c, hc, ha.trans hatoms, fun v => ?_⟩
    rw [hv, htruths]
    rfl
  | .or items =>
    rw [IsWritable] at hp
    obtain ⟨cs, hcs, hatoms, htruths⟩ := exists_operands items hp
    obtain ⟨c, hc, ha, hv⟩ := exists_group .or hcs isOperand_false
    refine ⟨c, hc, ha.trans hatoms, fun v => ?_⟩
    rw [hv, htruths]
    rfl
  | .not item =>
    rw [IsWritable] at hp
    obtain ⟨c, hc, ha, hv⟩ := exists_operand item hp
    refine ⟨.not c, ?_, ha, fun v => congrArg Bool.not (hv v)⟩
    -- A group is in parentheses already.
    change IsOperand (if isGroup item then "NOT ".toList ++ condition item
      else "NOT (".toList ++ condition item ++ [')']) _
    split
    · exact hc.not
    · exact hc.not_parenthesized

theorem exists_operands (ps : List Predicate) (hps : ∀ p ∈ ps, IsWritable p) :
    ∃ cs, List.Forall₂ IsOperand (conditions ps) cs ∧
      cs.flatMap Condition.atoms = atomsOfAll written ps ∧
        ∀ v, cs.map (·.holds v) = truths (passes written v) ps := by
  match ps with
  | [] => exact ⟨[], .nil, rfl, fun v => rfl⟩
  | p :: rest =>
    obtain ⟨c, hc, ha, hv⟩ := exists_operand p (hps p List.mem_cons_self)
    obtain ⟨cs, hcs, hatoms, htruths⟩ :=
      exists_operands rest fun q hq => hps q (List.mem_cons_of_mem p hq)
    refine ⟨c :: cs, .cons hc hcs, ?_, fun v => ?_⟩
    · rw [List.flatMap_cons, ha, hatoms]
      rfl
    · rw [List.map_cons, hv, htruths]
      rfl

end

/-- A text that is an operand is read to its end. -/
theorem readCondition_of_isOperand {s : String} {c : Condition} (h : IsOperand s.toList c) :
    readCondition s = some c := by
  obtain ⟨ts, hs, hread⟩ := h.whole
  have hts := hs [] .nil
  have hg : Gives (condition? (ts.length + 1) (ts ++ [])) c [] :=
    hread ts.length [] (Nat.le_refl _) fun t ht => by cases ht
  rw [List.append_nil] at hts hg
  rw [tokens, Option.map_some, List.append_nil] at hts
  obtain ⟨⟨tokens, fewer⟩, hr, rfl⟩ := hg
  unfold readCondition
  rw [hts]
  change (condition? (ts.length + 1) ts >>= _) = _
  rw [hr]
  rfl

end ComputedField.Sql
