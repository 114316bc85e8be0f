import ComputedField.Proofs.Sql.Token

/-!
# Pieces of a condition are read as they were written

Each piece that a condition is written from becomes the tokens that it was meant as, whatever text
is in it, and pieces that are put together become the tokens of both.
-/

namespace ComputedField.Sql

open ComputedField.Decimal ComputedField.Filter

/-- What may stand behind a piece. -/
inductive Stops : List Char → Prop where
  | nil : Stops []
  | blank (rest : List Char) : Stops (' ' :: rest)
  | comma (rest : List Char) : Stops (',' :: rest)
  | closeParen (rest : List Char) : Stops (')' :: rest)

/-- The characters are read as the tokens, wherever they stand. -/
def Scans (s : List Char) (ts : List Token) : Prop :=
  ∀ rest, Stops rest → tokens (s ++ rest) = (tokens rest).map (ts ++ ·)

section Pieces

variable {s u rest : List Char} {ts us : List Token}

/-- A text is scanned token by token. -/
theorem tokens_cons {c : Char} {after : List Char} {t : Token} (hc : c.isWhitespace = false)
    (h : scanToken c rest = some (t, after)) : tokens (c :: rest) = (tokens after).map (t :: ·) := by
  rw [tokens, if_neg (by simp [hc])]
  split
  · rename_i hn
    rw [h] at hn
    cases hn
  · rename_i ht
    rw [h] at ht
    cases ht
    rfl

theorem tokens_blank (rest : List Char) : tokens (' ' :: rest) = tokens rest := by
  have hblank : ' '.isWhitespace = true := rfl
  rw [tokens, if_pos hblank]

theorem scans_of_scanToken {c : Char} {t : Token} (hc : c.isWhitespace = false)
    (h : ∀ rest, Stops rest → scanToken c (s ++ rest) = some (t, rest)) : Scans (c :: s) [t] := by
  intro rest hrest
  exact tokens_cons hc (h rest hrest)

theorem Scans.append (h : Scans s ts) (h' : Scans u us) (hu : ∀ rest, Stops (u ++ rest)) :
    Scans (s ++ u) (ts ++ us) := by
  intro rest hrest
  rw [List.append_assoc, h _ (hu rest), h' rest hrest, Option.map_map]
  congr 1
  funext vs
  exact (List.append_assoc ts us vs).symm

theorem Scans.blank (h : Scans s ts) : Scans (' ' :: s) ts := by
  intro rest hrest
  rw [List.cons_append, tokens_blank]
  exact h rest hrest

theorem Scans.openParen (h : Scans s ts) : Scans ('(' :: s) (.openParen :: ts) := by
  intro rest hrest
  rw [List.cons_append, tokens_cons rfl rfl, h rest hrest, Option.map_map]
  rfl

theorem Scans.comma (h : Scans s ts) : Scans (',' :: s) (.comma :: ts) := by
  intro rest hrest
  rw [List.cons_append, tokens_cons rfl rfl, h rest hrest, Option.map_map]
  rfl

theorem scans_closeParen : Scans [')'] [.closeParen] :=
  scans_of_scanToken rfl fun _ _ => rfl

theorem Scans.then_blank (h : Scans s ts) (h' : Scans u us) : Scans (s ++ ' ' :: u) (ts ++ us) :=
  h.append h'.blank fun rest => .blank (u ++ rest)

theorem Scans.then_comma (h : Scans s ts) (h' : Scans u us) :
    Scans (s ++ ',' :: ' ' :: u) (ts ++ .comma :: us) :=
  h.append h'.blank.comma fun rest => .comma (' ' :: u ++ rest)

theorem Scans.then_closeParen (h : Scans s ts) : Scans (s ++ [')']) (ts ++ [.closeParen]) :=
  h.append scans_closeParen .closeParen

/-- A run of characters of one kind ends where a piece may end. -/
theorem Stops.span {p : Char → Bool} (hrest : Stops rest) (hs : ∀ c ∈ s, p c = true)
    (hblank : p ' ' = false) (hcomma : p ',' = false) (hclose : p ')' = false) :
    (s ++ rest).takeWhile p = s ∧ (s ++ rest).dropWhile p = rest := by
  rw [List.takeWhile_append_of_pos hs, List.dropWhile_append_of_pos hs]
  cases hrest with
  | nil => simp
  | blank rest => simp [hblank]
  | comma rest => simp [hcomma]
  | closeParen rest => simp [hclose]

end Pieces

section Words

/-- A keyword is told from a column by what follows it. -/
theorem scanWord_keyword (k : Keyword) {rest : List Char} (hrest : Stops rest) :
    scanWord (k.spelling.toList ++ rest) = some (.keyword k, rest) := by
  have hk : k.spelling.toList.all isWordChar = true := by
    cases k <;> decide
  obtain ⟨hword, hafter⟩ := hrest.span (List.all_eq_true.mp hk) rfl rfl rfl
  unfold scanWord
  rw [hword, hafter]
  cases hrest <;> simp [Keyword.ofWord?_spelling]

theorem scans_keyword (k : Keyword) : Scans k.spelling.toList [.keyword k] := by
  have hk : ∃ c s, k.spelling.toList = c :: s ∧ c.isWhitespace = false ∧
      ∀ rest, scanToken c rest = scanWord (c :: rest) := by
    cases k <;> exact ⟨_, _, rfl, rfl, fun _ => rfl⟩
  obtain ⟨c, s, hs, hblank, hscan⟩ := hk
  rw [hs]
  refine scans_of_scanToken hblank fun rest hrest => ?_
  rw [hscan, ← List.cons_append, ← hs]
  exact scanWord_keyword k hrest

theorem isWordChar_of_isDigit {c : Char} (h : c.isDigit = true) : isWordChar c = true := by
  simp [isWordChar, Char.isAlphanum, h]

theorem isWordChar_toDigits {n : Nat} : ∀ c ∈ Nat.toDigits 10 n, isWordChar c = true := fun _ hc =>
  isWordChar_of_isDigit (Nat.isDigit_of_mem_toDigits (by decide) (by decide) hc)

/-- The name of a join is a word that begins with a letter. -/
theorem Join.exists_name (j : Join) :
    ∃ s, j.name.toList = 't' :: s ∧ ∀ c ∈ 't' :: s, isWordChar c = true := by
  refine ⟨_, j.toList_name, ?_⟩
  intro c hc
  rcases List.mem_cons.mp hc with rfl | hc
  · rfl
  · rcases List.mem_append.mp hc with hc | hc
    · exact isWordChar_toDigits c hc
    · rcases List.mem_cons.mp hc with rfl | hc
      · rfl
      · exact isWordChar_toDigits c hc

/-- A table and a column with a point between them are one word. -/
theorem scanWord_column {table column rest : List Char} (ht : ∀ c ∈ table, isWordChar c = true)
    (hc : ∀ c ∈ column, isWordChar c = true) (hne : column ≠ []) (hrest : Stops rest) :
    scanWord (table ++ '.' :: (column ++ rest)) =
      some (.column (String.ofList (table ++ '.' :: column)), rest) := by
  have hpoint : ¬ isWordChar '.' = true := by decide
  obtain ⟨hcolumn, hafter⟩ := hrest.span hc rfl rfl rfl
  unfold scanWord
  rw [List.dropWhile_append_of_pos ht, List.takeWhile_append_of_pos ht,
    List.dropWhile_cons_of_neg hpoint, List.takeWhile_cons_of_neg hpoint, List.append_nil]
  change (if ((column ++ rest).takeWhile isWordChar).isEmpty then none
    else some (_, (column ++ rest).dropWhile isWordChar)) = _
  rw [hcolumn, hafter, if_neg (by simp [hne])]

theorem scans_column (c : ColumnRef) : Scans c.name.toList [.column c.name] := by
  obtain ⟨s, hs, hword⟩ := Join.exists_name c.join
  have hcolumn : c.column.name.toList ≠ [] ∧ c.column.name.toList.all isWordChar = true := by
    cases c.column <;> decide
  have hname : c.name.toList = 't' :: s ++ '.' :: c.column.name.toList := by
    simp [ColumnRef.name, hs]
  have hcons : c.name.toList = 't' :: (s ++ '.' :: c.column.name.toList) := hname
  rw [hcons]
  refine scans_of_scanToken rfl fun rest hrest => ?_
  have h := scanWord_column hword (List.all_eq_true.mp hcolumn.2) hcolumn.1 hrest
  rw [← hname, String.ofList_toList] at h
  rw [← h, List.append_assoc]
  rfl

end Words

/-- What a literal is meant to stand for, where `decimal` says as which number a double is taken. -/
def valueOf (decimal : Float → ℚ) : Literal → Value
  | .text s => .text s
  | .number x => .number (decimal x)

def written (x : Float) : ℚ := (Reading.of x).written

def IsFinite : Literal → Prop
  | .text _ => True
  | .number x => x.isFinite = true

section Values

/-- A quoted text is one token, whatever is in it. -/
theorem scans_text (s : List Char) : Scans (quoted s) [.value (.text (String.ofList s))] := by
  refine scans_of_scanToken rfl fun rest hrest => ?_
  have hquote : rest.head? ≠ some '\'' := by
    cases hrest <;> simp
  have h := readText_escapeLiteral s hquote
  rw [← List.singleton_append, ← List.append_assoc] at h
  exact congrArg (Option.map _) h

theorem Stops.wordEnds {rest : List Char} (h : Stops rest) : rest.head?.any isWordChar = false := by
  cases h <;> rfl

/-- A numeral is read as the number that it stands for. -/
theorem scanNumeral_isNumeral {s rest : List Char} {q : ℚ} (hq : IsNumeral s q) (hrest : Stops rest)
    (negative : Bool) :
    scanNumeral negative (s ++ rest) = some (.value (.number (if negative then -q else q)), rest) := by
  cases hq with
  | whole nonempty digits =>
    obtain ⟨hwhole, hafter⟩ := hrest.span digits rfl rfl rfl
    unfold scanNumeral
    dsimp only
    rw [hwhole, hafter, if_neg (by simp [nonempty])]
    split
    · cases hrest
    · rw [hrest.wordEnds, if_neg Bool.false_ne_true]
      simp [numberToken]
  | @pointed s t nonempty more digits =>
    have hs : ∀ c ∈ s, c.isDigit = true := fun c hc => digits c (List.mem_append_left t hc)
    have ht : ∀ c ∈ t, c.isDigit = true := fun c hc => digits c (List.mem_append_right s hc)
    have hpoint : ¬ Char.isDigit '.' = true := by decide
    obtain ⟨hfraction, hafter⟩ := hrest.span ht rfl rfl rfl
    unfold scanNumeral
    dsimp only
    rw [List.append_assoc, List.cons_append, List.dropWhile_append_of_pos hs,
      List.takeWhile_append_of_pos hs, List.dropWhile_cons_of_neg hpoint,
      List.takeWhile_cons_of_neg hpoint, List.append_nil, if_neg (by simp [nonempty])]
    change (if ((t ++ rest).takeWhile Char.isDigit).isEmpty ||
      ((t ++ rest).dropWhile Char.isDigit).head?.any isWordChar then none else some (_, _)) = _
    rw [hfraction, hafter, hrest.wordEnds, if_neg (by simp [more])]
    rfl

theorem scanToken_of_isDigit {c : Char} (hc : c.isDigit = true) (rest : List Char) :
    scanToken c rest = scanNumeral false (c :: rest) := by
  unfold scanToken
  split
  case h_9 => rw [if_pos hc]
  all_goals cases hc

theorem scans_numeral {s : List Char} {q : ℚ} (hq : IsNumeral s q) :
    Scans s [.value (.number q)] := by
  obtain ⟨c, u, rfl, hc⟩ := IsNumeral.exists_digit hq
  have hblank : c.isWhitespace = false := by
    cases h : c.isWhitespace with
    | false => rfl
    | true =>
      simp only [Char.isWhitespace, Bool.or_eq_true, decide_eq_true_eq] at h
      rcases h with ((rfl | rfl) | rfl) | rfl <;> cases hc
  refine scans_of_scanToken hblank fun rest hrest => ?_
  rw [scanToken_of_isDigit hc]
  exact scanNumeral_isNumeral hq hrest false

theorem scans_negative {s : List Char} {q : ℚ} (hq : IsNumeral s q) :
    Scans ('-' :: s) [.value (.number (-q))] :=
  scans_of_scanToken rfl fun _ hrest => scanNumeral_isNumeral hq hrest true

theorem isNumeral_zero : IsNumeral ['0'] 0 := by
  have h := IsNumeral.whole (s := ['0']) (by simp) (by simp)
  rwa [show Nat.ofDigitChars 10 ['0'] 0 = 0 from rfl, Nat.cast_zero] at h

/-- A finite double is scanned as the number that is written. -/
theorem scans_number {x : Float} (hx : x.isFinite = true) :
    Scans (numeral x) [.value (.number (written x))] := by
  obtain ⟨negative, mantissa, exponent, hr⟩ := (isFinite_iff x).mp hx
  unfold numeral written
  by_cases hzero : (x == 0.0) = true
  · obtain ⟨n, e, hz⟩ := (beq_zero_iff x).mp hzero
    rw [if_pos hzero, hz]
    exact scans_numeral isNumeral_zero
  · have hm : mantissa ≠ 0 := by
      intro he
      rw [he] at hr
      exact hzero ((beq_zero_iff x).mpr ⟨negative, exponent, hr⟩)
    have hd := isNumeral_positional (shortest mantissa exponent)
    rw [if_neg hzero, toList_format_plainStyle hr hm, hr, Reading.written, if_neg hm]
    cases negative with
    | false => exact scans_numeral hd
    | true => exact scans_negative hd

/-- A literal is scanned as what it is meant to stand for. -/
theorem scans_literal {l : Literal} (hl : IsFinite l) :
    Scans (literal l) [.value (valueOf written l)] := by
  cases l with
  | text s =>
    have h := scans_text s.toList
    rw [String.ofList_toList] at h
    exact h
  | number x => exact scans_number hl

theorem scans_comparison (op : Comparison) : Scans op.symbol.toList [.comparison op] := by
  have h : ∃ c s, op.symbol.toList = c :: s ∧ c.isWhitespace = false ∧
      ∀ rest, Stops rest → scanToken c (s ++ rest) = some (.comparison op, rest) := by
    cases op <;> refine ⟨_, _, rfl, rfl, fun rest hrest => ?_⟩ <;> cases hrest <;> rfl
  obtain ⟨c, s, hs, hblank, hscan⟩ := h
  rw [hs]
  exact scans_of_scanToken hblank hscan

end Values

end ComputedField.Sql
