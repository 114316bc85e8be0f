import ComputedField.Query.Error
import ComputedField.Text.Letter

/-!
# From text to tokens

Blanks separate tokens and mean nothing else. A star is a multiplication, and `and`, `or`, `div` and
`mod` are operators, exactly where the token before leaves room for an operator; anywhere else they
are names.
-/

namespace ComputedField.Query

open Text

inductive ScanFault where
  | character
  | literal
  | variables
  deriving DecidableEq, Repr

def beginsName (c : Char) : Bool := isLetter c || c == '_'

def continuesName (c : Char) : Bool :=
  isLetterOrNumber c || c == '_' || c == '-' || c == '.'

/-- The characters of a name, and what follows; a colon belongs to it if more of a name comes. -/
def scanName : List Char → List Char × List Char
  | [] => ([], [])
  | c :: rest =>
    if continuesName c || (c == ':' && rest.head?.any beginsName) then
      let (name, after) := scanName rest
      (c :: name, after)
    else ([], c :: rest)

/-- The characters of a number with at most one point. -/
def scanNumber (pointed : Bool) : List Char → List Char × List Char
  | [] => ([], [])
  | c :: rest =>
    if c.isDigit || (c == '.' && !pointed) then
      let (number, after) := scanNumber (pointed || c == '.') rest
      (c :: number, after)
    else ([], c :: rest)

def numberToken (digits : List Char) : Token :=
  .number ((Decimal.parse? digits).getD nan)

/-- The name as an operator, where one may stand. -/
def wordToken (operatorPlace : Bool) (name : String) : Token :=
  if operatorPlace then
    match name with
    | "and" => .operator .and
    | "or" => .operator .or
    | "div" => .operator (.arith .div)
    | "mod" => .operator (.arith .mod)
    | _ => .name name
  else .name name

/-- The token made of `c` alone. -/
def singleToken? : Char → Option Token
  | '(' => some .openParen
  | ')' => some .closeParen
  | '[' => some .openBracket
  | ']' => some .closeBracket
  | '@' => some .at
  | ',' => some .comma
  | '|' => some (.operator .union)
  | '+' => some (.operator (.arith .add))
  | '-' => some (.operator (.arith .sub))
  | '=' => some (.operator (.compare .eq))
  | _ => none

/-- One token, or another if the next character is `c`. -/
def ifNext (c : Char) (two one : Token) : List Char → Token × List Char
  | [] => (one, [])
  | d :: rest => if d = c then (two, rest) else (one, d :: rest)

/-- The token that begins with the character `c`, which is no blank, and what follows it. -/
def scanToken (operatorPlace : Bool) (c : Char) (rest : List Char) :
    Except ScanFault (Token × List Char) :=
  match singleToken? c with
  | some t => .ok (t, rest)
  | none =>
    match c with
    | '/' => .ok (ifNext '/' .doubleSlash .slash rest)
    | '<' => .ok (ifNext '=' (.operator (.compare .le)) (.operator (.compare .lt)) rest)
    | '>' => .ok (ifNext '=' (.operator (.compare .ge)) (.operator (.compare .gt)) rest)
    | '!' =>
      match rest with
      | '=' :: after => .ok (.operator (.compare .ne), after)
      | _ => .error .character
    | ':' =>
      match rest with
      | ':' :: after => .ok (.doubleColon, after)
      | _ => .error .character
    | '*' => .ok (if operatorPlace then .operator (.arith .mul) else .star, rest)
    | '.' =>
      if rest.head?.any Char.isDigit then
        let (digits, after) := scanNumber true rest
        .ok (numberToken ('.' :: digits), after)
      else .ok (ifNext '.' .doubleDot .dot rest)
    | '$' => .error .variables
    | c =>
      if c = '"' ∨ c = '\'' then
        match rest.dropWhile (· != c) with
        | [] => .error .literal
        | _ :: after => .ok (.literal (String.ofList (rest.takeWhile (· != c))), after)
      else if c.isDigit then
        let (digits, after) := scanNumber false rest
        .ok (numberToken (c :: digits), after)
      else if beginsName c then
        let (name, after) := scanName rest
        .ok (wordToken operatorPlace (String.ofList (c :: name)), after)
      else .error .character

theorem length_scanName (s : List Char) : (scanName s).2.length ≤ s.length := by
  induction s with
  | nil => simp [scanName]
  | cons c rest ih =>
    simp only [scanName]
    split
    · exact Nat.le_succ_of_le ih
    · simp

theorem length_scanNumber (pointed : Bool) (s : List Char) :
    (scanNumber pointed s).2.length ≤ s.length := by
  induction s generalizing pointed with
  | nil => simp [scanNumber]
  | cons c rest ih =>
    simp only [scanNumber]
    split
    · exact Nat.le_succ_of_le (ih _)
    · simp

theorem length_ifNext (c : Char) (two one : Token) (s : List Char) :
    (ifNext c two one s).2.length ≤ s.length := by
  cases s with
  | nil => simp [ifNext]
  | cons d rest =>
    simp only [ifNext]
    split <;> simp

theorem length_scanToken {operatorPlace : Bool} {c : Char} {rest after : List Char} {t : Token}
    (h : scanToken operatorPlace c rest = .ok (t, after)) : after.length ≤ rest.length := by
  have ifNext_le : ∀ {c : Char} {two one : Token},
      Except.ok (ifNext c two one rest) = (.ok (t, after) : Except ScanFault (Token × List Char)) →
        after.length ≤ rest.length := by
    intro c two one he
    have := length_ifNext c two one rest
    simp only [Except.ok.injEq] at he
    rwa [he] at this
  unfold scanToken at h
  split at h
  · simp_all
  · split at h
    · exact ifNext_le h
    · exact ifNext_le h
    · exact ifNext_le h
    · split at h
      · simp only [Except.ok.injEq, Prod.mk.injEq] at h
        simp [← h.2]
      · simp at h
    · split at h
      · simp only [Except.ok.injEq, Prod.mk.injEq] at h
        simp [← h.2]
      · simp at h
    · simp_all
    · split at h
      · have := length_scanNumber true rest
        simp only [Except.ok.injEq, Prod.mk.injEq] at h
        rwa [h.2] at this
      · exact ifNext_le h
    · simp at h
    · split at h
      · split at h
        · simp at h
        · rename_i d tail hd
          have hl := (List.dropWhile_suffix (· != c) (l := rest)).length_le
          rw [hd, List.length_cons] at hl
          simp only [Except.ok.injEq, Prod.mk.injEq] at h
          rw [← h.2]
          omega
      · split at h
        · have := length_scanNumber false rest
          simp only [Except.ok.injEq, Prod.mk.injEq] at h
          rwa [h.2] at this
        · split at h
          · have := length_scanName rest
            simp only [Except.ok.injEq, Prod.mk.injEq] at h
            rwa [h.2] at this
          · simp at h

/-- A fault, the character at which it lies, and the text after that. -/
structure ScanFailure where
  fault : ScanFault
  char : Char
  rest : List Char
  deriving DecidableEq, Repr

/-- The tokens of a text; `before` is the token in front of it. -/
def tokensAfter (before : Option Token) : List Char → Except ScanFailure (List Token)
  | [] => .ok []
  | c :: rest =>
    if isBlank c then tokensAfter before rest
    else
      match h : scanToken (before.any (!·.expectsOperand)) c rest with
      | .error fault => .error ⟨fault, c, rest⟩
      | .ok (t, after) =>
        have := length_scanToken h
        (tokensAfter (some t) after).map (t :: ·)
termination_by s => s.length

theorem tokensAfter_blank {c : Char} (hc : isBlank c = true) (before : Option Token)
    (rest : List Char) : tokensAfter before (c :: rest) = tokensAfter before rest := by
  rw [tokensAfter, if_pos hc]

theorem tokensAfter_cons {before : Option Token} {c : Char} {rest after : List Char} {t : Token}
    (hc : isBlank c = false)
    (h : scanToken (before.any (!·.expectsOperand)) c rest = .ok (t, after)) :
    tokensAfter before (c :: rest) = (tokensAfter (some t) after).map (t :: ·) := by
  rw [tokensAfter, if_neg (by simp [hc])]
  split
  · rename_i heq
    rw [h] at heq
    cases heq
  · rename_i heq
    rw [h] at heq
    cases heq
    rfl

theorem tokensAfter_fault {before : Option Token} {c : Char} {rest : List Char} {fault : ScanFault}
    (hc : isBlank c = false)
    (h : scanToken (before.any (!·.expectsOperand)) c rest = .error fault) :
    tokensAfter before (c :: rest) = .error ⟨fault, c, rest⟩ := by
  rw [tokensAfter, if_neg (by simp [hc])]
  split
  · rename_i heq
    rw [h] at heq
    cases heq
    rfl
  · rename_i heq
    rw [h] at heq
    cases heq

def byteCount : List Char → Nat
  | [] => 0
  | c :: rest => c.utf8Size + byteCount rest

def ScanFailure.toError (query : List Char) (f : ScanFailure) : Error :=
  match f.fault with
  | .character => .unexpectedChar f.char (byteCount query - byteCount (f.char :: f.rest))
  | .literal => .unterminatedLiteral
  | .variables => .unsupported .variables

def tokenize (query : String) : Except Error (List Token) :=
  (tokensAfter none query.toList).mapError (ScanFailure.toError query.toList)

end ComputedField.Query
