import ComputedField.Filter.Predicate
import ComputedField.Proofs.Decimal.Numeral
import ComputedField.Proofs.Sql.Text

/-!
# Words of a condition

How a server takes a condition apart: keywords in any case, columns read through a table, texts in
quotes and numerals. A piece is read as written wherever a blank, a comma or a closing parenthesis
follows.
-/

namespace ComputedField.Sql

open ComputedField.Filter

inductive Keyword where
  | yes
  | no
  | not
  | and
  | or
  | within
  | like
  | regexp
  | matching
  | against
  | boolean
  | mode
  deriving DecidableEq, Repr

namespace Keyword

def spelling : Keyword → String
  | .yes => "TRUE"
  | .no => "FALSE"
  | .not => "NOT"
  | .and => "AND"
  | .or => "OR"
  | .within => "IN"
  | .like => "LIKE"
  | .regexp => "REGEXP"
  | .matching => "MATCH"
  | .against => "AGAINST"
  | .boolean => "BOOLEAN"
  | .mode => "MODE"

def all : List Keyword :=
  [.yes, .no, .not, .and, .or, .within, .like, .regexp, .matching, .against, .boolean, .mode]

def ofWord? (word : List Char) : Option Keyword :=
  all.find? (·.spelling.toList == word.map Char.toUpper)

theorem ofWord?_spelling (k : Keyword) : ofWord? k.spelling.toList = some k := by
  cases k <;> decide

end Keyword

inductive Value where
  | text (s : String)
  | number (x : ℚ)
  deriving DecidableEq

inductive Token where
  | openParen
  | closeParen
  | comma
  | comparison (op : Comparison)
  | keyword (k : Keyword)
  | column (name : String)
  | value (v : Value)
  deriving DecidableEq

def isWordChar (c : Char) : Bool := c.isAlphanum || c == '_'

/-- Reads a keyword, or a table and a column with a point between them. -/
def scanWord (s : List Char) : Option (Token × List Char) :=
  let word := s.takeWhile isWordChar
  match s.dropWhile isWordChar with
  | '.' :: after =>
    let column := after.takeWhile isWordChar
    if column.isEmpty then none
    else some (.column (String.ofList (word ++ '.' :: column)), after.dropWhile isWordChar)
  | after => (Keyword.ofWord? word).map fun k => (.keyword k, after)

def numberToken (negative : Bool) (digits : List Char) (places : Nat) : Token :=
  let x : ℚ := Nat.ofDigitChars 10 digits 0 / 10 ^ places
  .value (.number (if negative then -x else x))

/-- Reads a numeral, which has digits on both sides of its point and ends where no word goes on. -/
def scanNumeral (negative : Bool) (s : List Char) : Option (Token × List Char) :=
  let whole := s.takeWhile Char.isDigit
  if whole.isEmpty then none
  else
    match s.dropWhile Char.isDigit with
    | '.' :: after =>
      let fraction := after.takeWhile Char.isDigit
      let rest := after.dropWhile Char.isDigit
      if fraction.isEmpty || rest.head?.any isWordChar then none
      else some (numberToken negative (whole ++ fraction) fraction.length, rest)
    | rest =>
      if rest.head?.any isWordChar then none else some (numberToken negative whole 0, rest)

def scanComparison (op : Comparison) : List Char → Token × List Char
  | '=' :: rest => (.comparison op.orEqual, rest)
  | rest => (.comparison op, rest)

/-- The token that begins with a character that is no blank, and what follows it. -/
def scanToken (c : Char) (rest : List Char) : Option (Token × List Char) :=
  match c with
  | '(' => some (.openParen, rest)
  | ')' => some (.closeParen, rest)
  | ',' => some (.comma, rest)
  | '=' => some (.comparison .eq, rest)
  | '<' => some (scanComparison .lt rest)
  | '>' => some (scanComparison .gt rest)
  | '\'' => (readText rest).map fun (s, after) => (.value (.text (String.ofList s)), after)
  | '-' => scanNumeral true rest
  | c =>
    if c.isDigit then scanNumeral false (c :: rest)
    else if isWordChar c then scanWord (c :: rest)
    else none

section Length

variable {s after : List Char} {t : Token}

theorem length_dropWhile_lt {p : Char → Bool} (h : (s.takeWhile p).isEmpty = false) :
    (s.dropWhile p).length < s.length := by
  cases s with
  | nil => cases h
  | cons c rest =>
    cases hc : p c with
    | false => simp [hc] at h
    | true =>
      rw [List.dropWhile_cons_of_pos hc]
      exact Nat.lt_succ_of_le ((List.dropWhile_suffix p).length_le)

theorem length_scanWord {c : Char} {rest : List Char} (hc : isWordChar c = true)
    (h : scanWord (c :: rest) = some (t, after)) : after.length ≤ rest.length := by
  unfold scanWord at h
  dsimp only at h
  rw [List.dropWhile_cons_of_pos hc] at h
  have hle := (List.dropWhile_suffix isWordChar (l := rest)).length_le
  split at h
  · rename_i tail htail
    have := (List.dropWhile_suffix isWordChar (l := tail)).length_le
    rw [htail, List.length_cons] at hle
    split at h
    · cases h
    · cases h
      omega
  · obtain ⟨k, -, he⟩ := Option.map_eq_some_iff.mp h
    cases he
    exact hle

theorem length_scanNumeral {negative : Bool} (h : scanNumeral negative s = some (t, after)) :
    after.length < s.length := by
  unfold scanNumeral at h
  dsimp only at h
  split at h
  · cases h
  · rename_i hwhole
    have hlt := length_dropWhile_lt (Bool.eq_false_of_not_eq_true hwhole)
    split at h
    · rename_i tail htail
      have := (List.dropWhile_suffix Char.isDigit (l := tail)).length_le
      rw [htail, List.length_cons] at hlt
      split at h
      · cases h
      · cases h
        omega
    · split at h
      · cases h
      · cases h
        exact hlt

theorem length_scanComparison {op : Comparison} (h : scanComparison op s = (t, after)) :
    after.length ≤ s.length := by
  unfold scanComparison at h
  split at h
  · cases h
    simp
  · cases h
    exact Nat.le_refl _

/-- Each token takes characters away, so that scanning comes to an end. -/
theorem length_scanToken {c : Char} {rest : List Char} (h : scanToken c rest = some (t, after)) :
    after.length ≤ rest.length := by
  unfold scanToken at h
  split at h
  case h_7 =>
    obtain ⟨⟨s, tail⟩, hs, he⟩ := Option.map_eq_some_iff.mp h
    cases he
    exact Nat.le_of_lt (length_readText hs)
  case h_8 => exact Nat.le_of_lt (length_scanNumeral h)
  case h_9 =>
    split at h
    · exact Nat.le_of_lt_succ (length_scanNumeral h)
    · split at h
      · rename_i hc
        exact length_scanWord hc h
      · cases h
  case h_5 => exact length_scanComparison (Option.some_inj.mp h)
  case h_6 => exact length_scanComparison (Option.some_inj.mp h)
  all_goals
    cases h
    exact Nat.le_refl _

end Length

/-- The tokens of a text. Blanks separate them and mean nothing else. -/
def tokens : List Char → Option (List Token)
  | [] => some []
  | c :: rest =>
    if c.isWhitespace then tokens rest
    else
      match h : scanToken c rest with
      | none => none
      | some (t, after) =>
        have := length_scanToken h
        (tokens after).map (t :: ·)
termination_by s => s.length

end ComputedField.Sql
