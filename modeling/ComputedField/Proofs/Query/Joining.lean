import ComputedField.Proofs.Fallible
import ComputedField.Query.Scan

/-!
# Texts joined at a parenthesis

A parenthesis outside a literal is a token whatever stands around it, so the tokens of a text around one
are those of its two sides. Only a literal without an end reaches beyond it.
-/

namespace ComputedField.Query

open Text

inductive IsParen : Char → Token → Prop where
  | opening : IsParen '(' .openParen
  | closing : IsParen ')' .closeParen

section Scanning

variable {p c : Char} {t : Token} {operatorPlace : Bool} {s z : List Char}

theorem IsParen.continuesName_eq (hp : IsParen p t) : continuesName p = false := by
  cases hp <;> decide +kernel

theorem IsParen.beginsName_eq (hp : IsParen p t) : beginsName p = false := by
  cases hp <;> decide +kernel

theorem IsParen.isDigit_eq (hp : IsParen p t) : p.isDigit = false := by
  cases hp <;> decide

theorem IsParen.ne (hp : IsParen p t) : p ≠ ':' ∧ p ≠ '.' ∧ p ≠ '/' ∧ p ≠ '=' ∧ p ≠ '"' ∧ p ≠ '\'' := by
  cases hp <;> decide

theorem any_head?_append {f : Char → Bool} (h : f p = false) (s z : List Char) :
    (s ++ p :: z).head?.any f = s.head?.any f := by
  cases s with
  | nil => exact h
  | cons d rest => rfl

theorem scanName_append (hp : IsParen p t) (s z : List Char) :
    scanName (s ++ p :: z) = ((scanName s).1, (scanName s).2 ++ p :: z) := by
  induction s with
  | nil => simp [scanName, hp.continuesName_eq, hp.ne]
  | cons d rest ih =>
    rw [List.cons_append, scanName, scanName, any_head?_append hp.beginsName_eq, ih]
    split <;> rfl

theorem scanNumber_append (hp : IsParen p t) (pointed : Bool) (s z : List Char) :
    scanNumber pointed (s ++ p :: z) =
      ((scanNumber pointed s).1, (scanNumber pointed s).2 ++ p :: z) := by
  induction s generalizing pointed with
  | nil => simp [scanNumber, hp.isDigit_eq, hp.ne]
  | cons d rest ih =>
    rw [List.cons_append, scanNumber, scanNumber, ih]
    split <;> rfl

theorem ifNext_append {d : Char} (hd : p ≠ d) (two one : Token) (s z : List Char) :
    ifNext d two one (s ++ p :: z) = ((ifNext d two one s).1, (ifNext d two one s).2 ++ p :: z) := by
  cases s with
  | nil => simp [ifNext, hd]
  | cons e rest =>
    rw [List.cons_append, ifNext, ifNext]
    split <;> rfl

/-- What is left of the search for the end of a literal, in front of a parenthesis. -/
theorem dropWhile_append_paren {q : Char} (hq : p ≠ q) (h : s.dropWhile (· != q) ≠ [] ∨ z = []) :
    (s ++ p :: z).dropWhile (· != q) =
      if s.dropWhile (· != q) = [] then [] else s.dropWhile (· != q) ++ p :: z := by
  rw [List.dropWhile_append]
  by_cases hs : s.dropWhile (· != q) = []
  · rw [h.resolve_left (fun hne => hne hs), hs]
    simp [hq]
  · simp [hs]

theorem takeWhile_append_paren {q : Char} (h : s.dropWhile (· != q) ≠ []) :
    (s ++ p :: z).takeWhile (· != q) = s.takeWhile (· != q) := by
  have hlength := congrArg List.length (List.takeWhile_append_dropWhile (p := (· != q)) (l := s))
  have hpos := List.length_pos_iff.mpr h
  rw [List.length_append] at hlength
  rw [List.takeWhile_append, if_neg (by omega)]

theorem scanToken_quote {q : Char} (hq : q = '"' ∨ q = '\'') (h : s.dropWhile (· != q) = []) :
    scanToken operatorPlace q s = .error .literal := by
  rcases hq with rfl | rfl <;> simp [scanToken, singleToken?, h]

/-- A token ends before a parenthesis, if it is not a literal. -/
theorem scanToken_append (hp : IsParen p t)
    (h : scanToken operatorPlace c s ≠ .error .literal ∨ z = []) :
    scanToken operatorPlace c (s ++ p :: z) =
      (scanToken operatorPlace c s).map fun (t, after) => (t, after ++ p :: z) := by
  obtain ⟨hcolon, hdot, hslash, heq, hdouble, hsingle⟩ := hp.ne
  have hends : c = '"' ∨ c = '\'' → s.dropWhile (· != c) ≠ [] ∨ z = [] :=
    fun hc => h.imp_left fun hne hs => hne (scanToken_quote hc hs)
  unfold scanToken
  split
  · rfl
  · split
    · rw [ifNext_append hslash]; rfl
    · rw [ifNext_append heq]; rfl
    · rw [ifNext_append heq]; rfl
    · cases s with
      | nil => simp [heq]; rfl
      | cons d rest =>
        by_cases hd : d = '='
        · simp [hd]; rfl
        · simp [hd]; rfl
    · cases s with
      | nil => simp [hcolon]; rfl
      | cons d rest =>
        by_cases hd : d = ':'
        · simp [hd]; rfl
        · simp [hd]; rfl
    · rfl
    · rw [any_head?_append hp.isDigit_eq]
      split
      · rw [scanNumber_append hp]; rfl
      · rw [ifNext_append hdot]; rfl
    · rfl
    · split
      · rename_i hc
        have hpc : p ≠ c := by
          rcases hc with rfl | rfl
          · exact hdouble
          · exact hsingle
        rw [dropWhile_append_paren hpc (hends hc)]
        cases hs : s.dropWhile (· != c) with
        | nil => rfl
        | cons d after =>
          rw [takeWhile_append_paren (by simp [hs])]
          rfl
      · split
        · rw [scanNumber_append hp]; rfl
        · split
          · rw [scanName_append hp]; rfl
          · rfl

theorem scanToken_append_of_ok {u : Token} {after : List Char} (hp : IsParen p t)
    (h : scanToken operatorPlace c s = .ok (u, after)) (z : List Char) :
    scanToken operatorPlace c (s ++ p :: z) = .ok (u, after ++ p :: z) := by
  rw [scanToken_append hp (by simp [h]), h]
  rfl

end Scanning

section Tokens

variable {p : Char} {t : Token} {before other : Option Token} {s z : List Char} {ts : List Token}
  {f : ScanFailure}

theorem tokenize_eq_ok_iff {query : String} :
    tokenize query = .ok ts ↔ tokensAfter none query.toList = .ok ts := by
  rw [tokenize]
  cases tokensAfter none query.toList with
  | ok _ => constructor <;> (intro h; cases h; rfl)
  | error _ => constructor <;> (intro h; cases h)

/-- Of the token before a text it only matters whether an operand has to follow. -/
theorem tokensAfter_congr
    (h : before.any (!·.expectsOperand) = other.any (!·.expectsOperand)) (s : List Char) :
    tokensAfter before s = tokensAfter other s := by
  fun_induction tokensAfter before s with
  | case1 => rw [tokensAfter]
  | case2 before c rest hc ih => rw [tokensAfter_blank hc, ih h]
  | case3 before c rest hc fault hscan =>
    rw [tokensAfter_fault (by simpa using hc) (h ▸ hscan)]
  | case4 before c rest hc t after hscan _ ih =>
    rw [tokensAfter_cons (by simpa using hc) (h ▸ hscan)]

theorem tokensAfter_paren (hp : IsParen p t) (before : Option Token) (z : List Char) :
    tokensAfter before (p :: z) = (tokensAfter (some t) z).map (t :: ·) := by
  cases hp <;> exact tokensAfter_cons (by decide) rfl

/-- What comes behind a parenthesis is scanned on its own. -/
theorem tokensAfter_append (hp : IsParen p t) (h : tokensAfter before s = .ok ts) (z : List Char) :
    tokensAfter before (s ++ p :: z) = (tokensAfter (some t) z).map (ts ++ t :: ·) := by
  fun_induction tokensAfter before s generalizing ts with
  | case1 before =>
    cases h
    exact tokensAfter_paren hp before z
  | case2 before c rest hc ih => rw [List.cons_append, tokensAfter_blank hc, ih h]
  | case3 before c rest hc fault hscan => cases h
  | case4 before c rest hc u after hscan _ ih =>
    obtain ⟨us, hus, rfl⟩ := ok_of_map h
    have hjoined := scanToken_append_of_ok hp hscan z
    rw [List.cons_append, tokensAfter_cons (by simpa using hc) hjoined, ih hus]
    cases tokensAfter (some t) z <;> rfl

/-- A text that is no sequence of tokens does not become one behind a parenthesis, unless it ends within
a literal. -/
theorem exists_tokensAfter_append_error (hp : IsParen p t) (h : tokensAfter before s = .error f)
    (hf : f.fault ≠ .literal ∨ z = []) : ∃ g, tokensAfter before (s ++ p :: z) = .error g := by
  fun_induction tokensAfter before s with
  | case1 before => cases h
  | case2 before c rest hc ih =>
    rw [List.cons_append, tokensAfter_blank hc]
    exact ih h
  | case3 before c rest hc fault hscan =>
    cases h
    have hjoined : scanToken (before.any (!·.expectsOperand)) c (rest ++ p :: z) = .error fault := by
      rw [scanToken_append hp (hf.imp_left fun hne => by simpa [hscan] using hne), hscan]
      rfl
    exact ⟨_, tokensAfter_fault (by simpa using hc) hjoined⟩
  | case4 before c rest hc u after hscan _ ih =>
    cases hrest : tokensAfter (some u) after with
    | ok us =>
      rw [hrest] at h
      cases h
    | error g =>
      rw [hrest] at h
      cases h
      obtain ⟨g, hg⟩ := ih hrest
      refine ⟨g, ?_⟩
      rw [List.cons_append, tokensAfter_cons (by simpa using hc) (scanToken_append_of_ok hp hscan z), hg]
      rfl

theorem tokensAfter_close (h : tokensAfter none s = .ok ts) :
    tokensAfter none (s ++ [')']) = .ok (ts ++ [.closeParen]) := by
  rw [tokensAfter_append .closing h, tokensAfter]
  rfl

end Tokens

end ComputedField.Query
