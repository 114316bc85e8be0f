import ComputedField.Proofs.Query.Completeness
import ComputedField.Proofs.Query.Joining
import ComputedField.Proofs.Query.Lockstep

/-!
# A slash behind a parenthesis

A slash between a parenthesis and a step makes a path absolute and changes nothing else. Outside
predicates a query for the root of a document then means the same.
-/

namespace ComputedField.Query

open Markup (Document)

/-- Two token lists, read inside so many brackets, that differ in a slash between a parenthesis and a
step outside all of them. What closes more brackets than are open is not looked at. -/
inductive Marked : Nat → List Token → List Token → Prop where
  | added {ts : List Token} (step : startsStep ts = true) :
      Marked 0 (.openParen :: ts) (.openParen :: .slash :: ts)
  | removed {ts : List Token} (step : startsStep ts = true) :
      Marked 0 (.openParen :: .slash :: ts) (.openParen :: ts)
  | unopened {ts us : List Token} : Marked 0 (.closeBracket :: ts) (.closeBracket :: us)
  | opened {k : Nat} {ts us : List Token} (behind : Marked (k + 1) ts us) :
      Marked k (.openBracket :: ts) (.openBracket :: us)
  | closed {k : Nat} {ts us : List Token} (behind : Marked k ts us) :
      Marked (k + 1) (.closeBracket :: ts) (.closeBracket :: us)
  | token {k : Nat} {t : Token} {ts us : List Token}
      (other : t ≠ .openBracket ∧ t ≠ .closeBracket) (behind : Marked k ts us) :
      Marked k (t :: ts) (t :: us)

/-- Token lists of which one may have a slash that the other has not. -/
def Pairing.anchoring : Pairing where
  near k ts us := Marked k ts us ∨ ts = us
  parted k ts us := k = 0 ∧
    ((us = .slash :: ts ∧ startsStep ts = true) ∨ (ts = .slash :: us ∧ startsStep us = true))
  spare := 0
  least := 0

section Anchoring

variable {k l : Nat} {t : Token} {ts us : List Token} {inner : Parser Expr} {e : Expr}

theorem ne_cons_of_startsStep (h : startsStep ts = true) (ht : ∀ rest, startsStep (t :: rest) = false)
    (rest : List Token) : ts ≠ t :: rest := by
  rintro rfl
  rw [ht] at h
  cases h

/-- Tokens that start a step begin a path. -/
theorem beginsPath_of_startsStep (h : startsStep ts = true) : BeginsPath ts := by
  cases ts with
  | nil => cases h
  | cons t rest =>
    constructor
    · intro ht
      cases ht
      cases h
    · intro ht
      cases ht
      cases h

/-- A step that comes first is that of a relative path. -/
theorem path_of_startsStep (h : startsStep ts = true) {r : Rest ts.length} :
    path inner ts l = .ok (e, r) ↔ ∃ ss, steps inner ts l = .ok (ss, r) ∧ e = .path false ss := by
  rw [path, if_pos h]
  · constructor
    · intro hr
      obtain ⟨⟨ss, q⟩, hq, hr⟩ := ok_of_bind hr
      cases hr
      exact ⟨ss, hq, rfl⟩
    · rintro ⟨ss, hss, rfl⟩
      exact bind_of_ok hss rfl
  · exact ne_cons_of_startsStep h fun _ => rfl
  · exact ne_cons_of_startsStep h fun _ => rfl

/-- The same steps behind a slash make an absolute path. -/
theorem path_slash_of_startsStep (h : startsStep ts = true) {r : Rest (Token.slash :: ts).length} :
    path inner (.slash :: ts) l = .ok (e, r) ↔
      ∃ ss s, steps inner ts l = .ok (ss, s) ∧ e = .path true ss ∧ r = s.widen (Nat.le_succ _) := by
  rw [path, if_pos h]
  constructor
  · intro hr
    obtain ⟨⟨ss, q⟩, hq, hr⟩ := ok_of_bind hr
    cases hr
    exact ⟨ss, q, hq, rfl, rfl⟩
  · rintro ⟨ss, s, hss, rfl, rfl⟩
    exact bind_of_ok hss rfl

/-- Lists that differ in such a slash may be read side by side. -/
theorem lawful_anchoring : Pairing.anchoring.Lawful where
  cons := by
    rintro k t ts us (h | rfl)
    · right
      cases h with
      | added step => exact ⟨_, rfl, .inr ⟨rfl, .inl ⟨rfl, step⟩⟩⟩
      | removed step => exact ⟨_, rfl, .inr ⟨rfl, .inr ⟨rfl, step⟩⟩⟩
      | unopened => exact ⟨_, rfl, fun j hj => absurd hj (Nat.succ_ne_zero j).symm⟩
      | opened behind => exact ⟨_, rfl, .inl behind⟩
      | closed behind =>
        refine ⟨_, rfl, fun j hj => .inl ?_⟩
        cases hj
        exact behind
      | token other behind =>
        refine ⟨_, rfl, ?_⟩
        cases t with
        | openBracket => exact absurd rfl other.1
        | closeBracket => exact absurd rfl other.2
        | openParen => exact .inl (.inl behind)
        | _ => exact .inl behind
    · refine .inr ⟨ts, rfl, ?_⟩
      cases t with
      | openParen => exact .inl (.inr rfl)
      | closeBracket => exact fun _ _ => .inr rfl
      | _ => exact .inr rfl
  head := by
    rintro k t ts us (h | rfl)
    · cases h <;> exact ⟨_, rfl⟩
    · exact ⟨us, rfl⟩
  begins := by
    rintro k ts us ⟨-, ⟨rfl, h⟩ | ⟨rfl, h⟩⟩
    · exact ⟨beginsPath_of_startsStep h, by simp [BeginsPath]⟩
    · exact ⟨by simp [BeginsPath], beginsPath_of_startsStep h⟩
  path := by
    rintro k ts us ⟨rfl, ⟨rfl, h⟩ | ⟨rfl, h⟩⟩ depth l m rfl a r hr -
    · obtain ⟨ss, hss, rfl⟩ := (path_of_startsStep h).mp hr
      exact ⟨_, _, (path_slash_of_startsStep h).mpr ⟨ss, r, hss, rfl, rfl⟩, .path _ _ ss, .inr rfl, rfl⟩
    · obtain ⟨ss, s, hss, rfl, rfl⟩ := (path_slash_of_startsStep h).mp hr
      exact ⟨_, _, (path_of_startsStep h).mpr ⟨ss, hss, rfl⟩, .path _ _ ss, .inr rfl, rfl⟩

/-- What one of two such lists expresses, so does the other. -/
theorem exists_ofTokens_of_near (h : Pairing.anchoring.near 0 ts us) (ht : Expr.ofTokens ts = .ok e) :
    ∃ f, Expr.ofTokens us = .ok f ∧ Alike 0 e f := by
  obtain ⟨⟨a, r⟩, hr, ht⟩ := ok_of_bind ht
  dsimp only at ht
  split at ht
  · rename_i hempty
    cases ht
    obtain ⟨f, s, hs, halike, hrest, -⟩ :=
      couples_expression lawful_anchoring maxDepth (.inl h) rfl hr (Nat.zero_le _)
    have hnil : s.tokens = [] := by
      rw [List.isEmpty_iff.mp hempty] at hrest
      cases hs : s.tokens with
      | nil => rfl
      | cons t tail =>
        rw [hs] at hrest
        obtain ⟨_, hcons⟩ := lawful_anchoring.head hrest
        cases hcons
    exact ⟨f, bind_of_ok hs (if_pos (List.isEmpty_iff.mpr hnil)), halike⟩
  · cases ht

end Anchoring

/-- The value for the root of a document, if the tokens express something that has one. -/
def valueOf? (d : Document) (tokens : List Token) : Option Value :=
  (Expr.ofTokens tokens).toOption.bind fun e => (e.eval d .ofRoot).toOption

/-- At the root it makes no difference whether there is a slash. -/
theorem valueOf?_eq_of_near {ts us : List Token} (d : Document)
    (hts : Pairing.anchoring.near 0 ts us) (hus : Pairing.anchoring.near 0 us ts) :
    valueOf? d ts = valueOf? d us := by
  have heval : ∀ {e f : Expr}, Alike 0 e f → e.eval d .ofRoot = f.eval d .ofRoot := by
    intro e f h
    rw [← eval_fromRoot d e .ofRoot rfl, h.1, eval_fromRoot d f .ofRoot rfl]
  rw [valueOf?, valueOf?]
  cases ht : Expr.ofTokens ts with
  | ok e =>
    obtain ⟨f, hf, halike⟩ := exists_ofTokens_of_near hts ht
    rw [hf]
    exact congrArg Except.toOption (heval halike)
  | error a =>
    cases hu : Expr.ofTokens us with
    | ok f =>
      obtain ⟨e, he, -⟩ := exists_ofTokens_of_near hus hu
      rw [ht] at he
      cases he
    | error b => rfl

def openBrackets : Nat → List Token → Nat
  | n, [] => n
  | n, .openBracket :: rest => openBrackets (n + 1) rest
  | n, .closeBracket :: rest => openBrackets (n - 1) rest
  | n, _ :: rest => openBrackets n rest

/-- The slash may stand behind whatever leaves no bracket open. -/
theorem marked_append {us vs : List Token} (h : Marked 0 us vs) {k : Nat} {before : List Token}
    (hbefore : openBrackets k before = 0) : Marked k (before ++ us) (before ++ vs) := by
  induction before generalizing k with
  | nil =>
    obtain rfl : k = 0 := hbefore
    exact h
  | cons t rest ih =>
    cases t with
    | openBracket => exact .opened (ih hbefore)
    | closeBracket =>
      cases k with
      | zero => exact .unopened
      | succ k => exact .closed (ih hbefore)
    | _ => exact .token (by simp) (ih hbefore)

/-- A slash between a parenthesis and a step, outside brackets, leaves the value alone. -/
theorem valueOf?_slash (d : Document) {before ts : List Token} (hbefore : openBrackets 0 before = 0)
    (h : startsStep ts = true) :
    valueOf? d (before ++ .openParen :: .slash :: ts) = valueOf? d (before ++ .openParen :: ts) :=
  valueOf?_eq_of_near d (.inl (marked_append (.removed h) hbefore))
    (.inl (marked_append (.added h) hbefore))

section Text

variable {x y : List Char} {ts : List Token}

/-- Whether a text stands outside literals and predicates where it ends. -/
def EndsOutside (s : List Char) : Prop :=
  match tokensAfter none s with
  | .ok ts => openBrackets 0 ts = 0
  | .error f => f.fault ≠ .literal

/-- Whether a step comes first in a text, or the text is no sequence of tokens at all. -/
def BeginsStep (s : List Char) : Prop :=
  match tokensAfter none s with
  | .ok ts => startsStep ts = true
  | .error _ => True

/-- A slash is a token, and where the text goes on is not changed by it. -/
theorem tokensAfter_slash (h : y.head? ≠ some '/') :
    tokensAfter none ('/' :: y) = (tokensAfter none y).map (.slash :: ·) := by
  have hscan : scanToken ((none : Option Token).any (!·.expectsOperand)) '/' y = .ok (.slash, y) := by
    cases y with
    | nil => rfl
    | cons c rest => exact congrArg Except.ok (if_neg fun hc => h (by rw [hc]; rfl))
  have hafter : tokensAfter (some .slash) y = tokensAfter none y := tokensAfter_congr (by rfl) y
  rw [tokensAfter_cons (by decide) hscan, hafter]

theorem tokensAfter_slash_slash (y : List Char) :
    tokensAfter none ('/' :: '/' :: y) = (tokensAfter none y).map (.doubleSlash :: ·) := by
  have hafter : tokensAfter (some .doubleSlash) y = tokensAfter none y := tokensAfter_congr (by rfl) y
  rw [tokensAfter_cons (t := .doubleSlash) (by decide) rfl, hafter]

theorem isOk_map {ε α β : Type} (f : α → β) (a : Except ε α) : (a.map f).isOk = a.isOk := by
  cases a <;> rfl

/-- Whether a text consists of tokens does not depend on a slash in front of it. -/
theorem isOk_tokensAfter_slash (y : List Char) :
    (tokensAfter none ('/' :: y)).isOk = (tokensAfter none y).isOk := by
  induction y with
  | nil => rw [tokensAfter_slash (by simp), isOk_map]
  | cons c rest ih =>
    by_cases hc : c = '/'
    · rw [hc, tokensAfter_slash_slash, isOk_map, ih]
    · rw [tokensAfter_slash (by simpa using hc), isOk_map]

/-- No step starts with a slash. -/
theorem head?_ne_of_startsStep (h : tokensAfter none y = .ok ts) (hstep : startsStep ts = true) :
    y.head? ≠ some '/' := by
  intro hy
  obtain ⟨rest, rfl⟩ := List.head?_eq_some_iff.mp hy
  by_cases hrest : rest.head? = some '/'
  · obtain ⟨z, rfl⟩ := List.head?_eq_some_iff.mp hrest
    rw [tokensAfter_slash_slash] at h
    obtain ⟨_, -, rfl⟩ := ok_of_map h
    cases hstep
  · rw [tokensAfter_slash hrest] at h
    obtain ⟨_, -, rfl⟩ := ok_of_map h
    cases hstep

theorem startsStep_append (h : startsStep ts = true) : startsStep (ts ++ [.closeParen]) = true := by
  cases ts with
  | nil => cases h
  | cons t rest =>
    cases t with
    | name word =>
      cases rest with
      | nil => rfl
      | cons u tail => cases u <;> exact h
    | _ => exact h

variable {d : Document} {s : List Char}

/-- A text has the value of its tokens. -/
theorem toOption_evaluateText (h : tokensAfter none s = .ok ts) :
    (evaluateText d (String.ofList s)).toOption = (valueOf? d ts).map (·.toText d) := by
  have htokens : tokenize (String.ofList s) = .ok ts := by
    rw [tokenize_eq_ok_iff, String.toList_ofList]
    exact h
  rw [evaluateText, evaluate, parse_of_tokenize htokens, valueOf?]
  cases Expr.ofTokens ts with
  | error e => rfl
  | ok e =>
    change ((e.eval d .ofRoot).map (·.toText d)).toOption = (e.eval d .ofRoot).toOption.map (·.toText d)
    cases e.eval d .ofRoot <;> rfl

/-- What is no sequence of tokens has no value. -/
theorem toOption_evaluateText_of_error (h : (tokensAfter none s).isOk = false) :
    (evaluateText d (String.ofList s)).toOption = none := by
  rw [evaluateText, evaluate, Expr.parse, tokenize, String.toList_ofList]
  cases hs : tokensAfter none s with
  | error f => rfl
  | ok ts =>
    rw [hs] at h
    cases h

/-- A parenthesis behind a text does not repair it. -/
theorem isOk_tokensAfter_close (h : (tokensAfter none s).isOk = false) :
    (tokensAfter none (s ++ [')'])).isOk = false := by
  cases hs : tokensAfter none s with
  | ok ts =>
    rw [hs] at h
    cases h
  | error f =>
    obtain ⟨g, hg⟩ := exists_tokensAfter_append_error .closing hs (.inr rfl)
    rw [hg]
    rfl

/-- A slash in a text, between a parenthesis and a step outside literals and predicates. -/
theorem toOption_evaluateText_slash (d : Document) (hx : EndsOutside x) (hy : BeginsStep y) :
    (evaluateText d (String.ofList (x ++ '(' :: '/' :: (y ++ [')'])))).toOption =
      (evaluateText d (String.ofList (x ++ '(' :: (y ++ [')'])))).toOption := by
  cases hbefore : tokensAfter none x with
  | error f =>
    rw [EndsOutside, hbefore] at hx
    have hjoined : ∀ z, (tokensAfter none (x ++ '(' :: z)).isOk = false := by
      intro z
      obtain ⟨g, hg⟩ := exists_tokensAfter_append_error (z := z) .opening hbefore (.inl hx)
      rw [hg]
      rfl
    rw [toOption_evaluateText_of_error (hjoined _), toOption_evaluateText_of_error (hjoined _)]
  | ok before =>
    rw [EndsOutside, hbefore] at hx
    have hopen : ∀ z, tokensAfter none (x ++ '(' :: z) =
        (tokensAfter none z).map (before ++ .openParen :: ·) := by
      intro z
      have hafter : tokensAfter (some .openParen) z = tokensAfter none z := tokensAfter_congr (by rfl) z
      rw [tokensAfter_append .opening hbefore, hafter]
    cases hbehind : tokensAfter none y with
    | error f =>
      have hy : (tokensAfter none y).isOk = false := by
        rw [hbehind]
        rfl
      have hslash : (tokensAfter none ('/' :: y)).isOk = false := by rw [isOk_tokensAfter_slash, hy]
      rw [toOption_evaluateText_of_error, toOption_evaluateText_of_error]
      · rw [hopen, isOk_map, isOk_tokensAfter_close hy]
      · rw [hopen, isOk_map]
        exact isOk_tokensAfter_close hslash
    | ok ts =>
      rw [BeginsStep, hbehind] at hy
      have hslash : tokensAfter none ('/' :: y) = .ok (.slash :: ts) := by
        rw [tokensAfter_slash (head?_ne_of_startsStep hbehind hy), hbehind]
        rfl
      have hplain := (hopen (y ++ [')'])).trans (congrArg _ (tokensAfter_close hbehind))
      have hanchored := (hopen ('/' :: (y ++ [')']))).trans (congrArg _ (tokensAfter_close hslash))
      rw [toOption_evaluateText hplain, toOption_evaluateText hanchored]
      exact congrArg _ (valueOf?_slash d hx (startsStep_append hy))

end Text

end ComputedField.Query
