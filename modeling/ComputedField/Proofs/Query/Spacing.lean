import Mathlib.Data.List.Basic
import ComputedField.Proofs.Query.Joining
import ComputedField.Proofs.Text.Ascii
import ComputedField.Proofs.Text.Blank
import ComputedField.Query.Parse

/-!
# Blanks between tokens

Where a token ends is decided by the one or two characters behind it and by nothing further on. A
blank put there ends it as well, and what a token is does not depend on the blanks before it. So
blanks may be added anywhere but inside tokens, and the tokens remain.
-/

namespace ComputedField.Query

open Text

/-- The second text is the first with blanks added in front of its tokens or behind the last of them;
`before` is the token in front of both. -/
inductive Widened : Option Token → List Char → List Char → Prop where
  | done {before : Option Token} : Widened before [] []
  | kept {before : Option Token} {c : Char} {s z : List Char} (blank : isBlank c = true)
      (others : Widened before s z) : Widened before (c :: s) (c :: z)
  | added {before : Option Token} {c : Char} {s z : List Char} (blank : isBlank c = true)
      (others : Widened before s z) : Widened before s (c :: z)
  | token {before : Option Token} {c : Char} {spelling after z : List Char} {t : Token}
      (visible : isBlank c = false)
      (scanned : scanToken (before.any (!·.expectsOperand)) c (spelling ++ after) = .ok (t, after))
      (others : Widened (some t) after z) :
      Widened before (c :: (spelling ++ after)) (c :: (spelling ++ z))

/-- Whether a character may belong to the token in front of it. -/
def extendsToken (c : Char) : Bool := continuesName c || c == ':' || c == '/' || c == '='

/-- Whether a token that ends in front of `after` ends in front of `z` too, as far as the scanner looks
ahead: nothing in `z` can belong to it, or `z` begins like `after`. -/
def EndsAlike (after z : List Char) : Prop :=
  z.head?.any extendsToken = false ∨
    z.head? = after.head? ∧ (z.head? = some ':' → z[1]? = after[1]?)

section Characters

variable {c : Char}

theorem extendsToken_of_isBlank (h : isBlank c = true) : extendsToken c = false :=
  eq_false_of_isBlank (by decide +kernel) h

theorem extendsToken_of_continuesName (h : continuesName c = true) : extendsToken c = true := by
  simp [extendsToken, h]

theorem continuesName_of_isDigit (h : c.isDigit = true) : continuesName c = true := by
  have hc : c.toNat < 0x80 := Nat.lt_trans (toNat_of_isDigit h).2 (by decide)
  simp [continuesName, isLetterOrNumber, isNumber_ascii hc, h]

theorem continuesName_of_beginsName (h : beginsName c = true) : continuesName c = true := by
  simp only [beginsName, Bool.or_eq_true] at h
  rcases h with h | h <;> simp [continuesName, isLetterOrNumber, h]

end Characters

section Scanning

variable {c d : Char} {after z : List Char}

theorem any_eq_false_of_imp {p q : Char → Bool} {o : Option Char}
    (hpq : ∀ c, p c = true → q c = true) (h : o.any q = false) : o.any p = false := by
  cases o with
  | none => rfl
  | some c =>
    rw [Option.any_some, ← Bool.not_eq_true] at h ⊢
    exact fun hc => h (hpq c hc)

/-- What may belong to a token and does not follow one does not follow the other. -/
theorem EndsAlike.any_head?_eq_false (hz : EndsAlike after z) {p : Char → Bool}
    (hp : ∀ c, p c = true → extendsToken c = true) (h : after.head?.any p = false) :
    z.head?.any p = false := by
  rcases hz with hz | ⟨hz, -⟩
  · exact any_eq_false_of_imp hp hz
  · rwa [hz]

/-- A name ends where no character of one follows, nor a colon in front of a name. -/
theorem scanName_eq_nil_iff {s : List Char} : scanName s = ([], s) ↔
    s.head?.any continuesName = false ∧ (s.head? = some ':' → s[1]?.any beginsName = false) := by
  cases s with
  | nil => simp [scanName]
  | cons e rest =>
    have hnext : (e :: rest)[1]? = rest.head? := by simp [List.head?_eq_getElem?]
    rw [scanName, hnext]
    split
    case isTrue h =>
      refine iff_of_false (by simp) ?_
      rintro ⟨hc, hcolon⟩
      rw [List.head?_cons, Option.any_some] at hc
      rw [hc, Bool.false_or, Bool.and_eq_true, beq_iff_eq] at h
      rw [hcolon (congrArg some h.1)] at h
      exact Bool.false_ne_true h.2
    case isFalse h =>
      rw [Bool.or_eq_true, Bool.and_eq_true, beq_iff_eq] at h
      simpa [not_or] using h

/-- Scanning takes a name from the front and loses nothing. -/
theorem scanName_append_eq (s : List Char) : (scanName s).1 ++ (scanName s).2 = s := by
  induction s with
  | nil => rfl
  | cons e rest ih =>
    rw [scanName]
    split
    case isTrue => exact congrArg (e :: ·) ih
    case isFalse => rfl

/-- A name ends where nothing follows that could belong to it. -/
theorem scanName_endsAlike {name : List Char} (h : scanName (name ++ after) = (name, after))
    (hz : EndsAlike after z) : scanName (name ++ z) = (name, z) := by
  induction name with
  | nil =>
    rw [List.nil_append, scanName_eq_nil_iff] at h ⊢
    refine ⟨hz.any_head?_eq_false (fun c => extendsToken_of_continuesName) h.1, fun hcolon => ?_⟩
    rcases hz with hz | ⟨hhead, hnext⟩
    · rw [hcolon] at hz
      cases hz
    · rw [hnext hcolon]
      exact h.2 (hhead ▸ hcolon)
  | cons e name ih =>
    rw [List.cons_append, scanName] at h ⊢
    split at h
    case isTrue htest =>
      have hrest : scanName (name ++ after) = (name, after) := by
        simp only [Prod.mk.injEq, List.cons.injEq, true_and] at h
        exact Prod.ext h.1 h.2
      -- A colon is not the last character of a name, since the next one begins a name.
      have hahead : (name ++ after).head?.any beginsName = true →
          (name ++ z).head?.any beginsName = true := by
        cases name with
        | nil =>
          intro hbegins
          have hends := (scanName_eq_nil_iff.mp hrest).1
          have hnone : after.head?.any beginsName = false :=
            any_eq_false_of_imp (fun c => continuesName_of_beginsName) hends
          rw [List.nil_append, hnone] at hbegins
          cases hbegins
        | cons f name => exact id
      rw [if_pos, ih hrest]
      rw [Bool.or_eq_true, Bool.and_eq_true] at htest ⊢
      exact htest.imp_right (And.imp_right hahead)
    case isFalse => cases h

theorem scanNumber_eq_nil_iff {pointed : Bool} {s : List Char} :
    scanNumber pointed s = ([], s) ↔
      s.head?.any (fun c => c.isDigit || (c == '.' && !pointed)) = false := by
  cases s with
  | nil => simp [scanNumber]
  | cons e rest =>
    rw [scanNumber, List.head?_cons, Option.any_some]
    split
    case isTrue h => simp [h]
    case isFalse h => simpa using h

theorem scanNumber_append_eq (pointed : Bool) (s : List Char) :
    (scanNumber pointed s).1 ++ (scanNumber pointed s).2 = s := by
  induction s generalizing pointed with
  | nil => rfl
  | cons e rest ih =>
    rw [scanNumber]
    split
    case isTrue => exact congrArg (e :: ·) (ih _)
    case isFalse => rfl

theorem scanNumber_endsAlike {number : List Char} {pointed : Bool}
    (h : scanNumber pointed (number ++ after) = (number, after)) (hz : EndsAlike after z) :
    scanNumber pointed (number ++ z) = (number, z) := by
  induction number generalizing pointed with
  | nil =>
    rw [List.nil_append, scanNumber_eq_nil_iff] at h ⊢
    refine hz.any_head?_eq_false (fun c hc => ?_) h
    rw [Bool.or_eq_true, Bool.and_eq_true, beq_iff_eq] at hc
    rcases hc with hc | ⟨rfl, -⟩
    · exact extendsToken_of_continuesName (continuesName_of_isDigit hc)
    · decide +kernel
  | cons e number ih =>
    rw [List.cons_append, scanNumber] at h ⊢
    split at h
    case isTrue htest =>
      have hrest : scanNumber (pointed || e == '.') (number ++ after) = (number, after) := by
        simp only [Prod.mk.injEq, List.cons.injEq, true_and] at h
        exact Prod.ext h.1 h.2
      rw [if_pos htest, ih hrest]
    case isFalse => cases h

/-- A character that is a token by itself is one in front of any text. -/
theorem alone_endsAlike {spelling : List Char} {u t : Token}
    (h : Except.ok (u, spelling ++ after) = (.ok (t, after) : Except ScanFault (Token × List Char))) :
    Except.ok (u, spelling ++ z) = (.ok (t, z) : Except ScanFault (Token × List Char)) := by
  simp only [Except.ok.injEq, Prod.mk.injEq, List.append_left_eq_self] at h
  rw [h.1, h.2, List.nil_append]

theorem ifNext_eq_self_iff {two one t : Token} {s : List Char} :
    ifNext d two one s = (t, s) ↔ one = t ∧ s.head?.any (· == d) = false := by
  cases s with
  | nil => simp [ifNext]
  | cons e rest =>
    rw [ifNext]
    split <;> simp_all

/-- Where one character decides between two tokens, it is taken in both texts or in neither. -/
theorem ifNext_endsAlike {two one t : Token} {spelling : List Char} (hd : extendsToken d = true)
    (h : ifNext d two one (spelling ++ after) = (t, after)) (hz : EndsAlike after z) :
    ifNext d two one (spelling ++ z) = (t, z) := by
  cases spelling with
  | nil =>
    rw [List.nil_append, ifNext_eq_self_iff] at h ⊢
    refine ⟨h.1, hz.any_head?_eq_false (fun c hc => ?_) h.2⟩
    rwa [beq_iff_eq.mp hc]
  | cons e rest =>
    rw [List.cons_append, ifNext] at h ⊢
    split at h
    case isTrue he =>
      simp only [Prod.mk.injEq, List.append_left_eq_self] at h
      rw [if_pos he, h.1, h.2, List.nil_append]
    case isFalse =>
      have hlength := congrArg (List.length ·.2) h
      simp at hlength
      omega

/-- A literal goes as far as its quote, whatever stands behind that. -/
theorem quoted_endsAlike {spelling : List Char} {q e : Char} (z : List Char)
    (h : (spelling ++ after).dropWhile (· != q) = e :: after) :
    (spelling ++ z).dropWhile (· != q) = e :: z ∧
      (spelling ++ z).takeWhile (· != q) = (spelling ++ after).takeWhile (· != q) := by
  have hsplit := List.takeWhile_append_dropWhile (p := (· != q)) (l := spelling ++ after)
  have hquote : (e != q) = false := by
    have hhead := List.head?_dropWhile_not (· != q) (spelling ++ after)
    rwa [h] at hhead
  have hinside : ∀ c ∈ (spelling ++ after).takeWhile (· != q), (c != q) = true :=
    fun c hc => List.all_eq_true.mp List.all_takeWhile c hc
  generalize (spelling ++ after).takeWhile (· != q) = inside at hsplit hinside
  obtain rfl : inside ++ [e] = spelling := by
    rw [h] at hsplit
    exact List.append_cancel_right (by rw [List.append_assoc]; exact hsplit)
  rw [List.append_assoc, List.dropWhile_append_of_pos hinside, List.takeWhile_append_of_pos hinside]
  simp [hquote]

/-- A scanner that loses no characters has taken the spelling if it leaves what follows. -/
theorem taken_endsAlike {scan : List Char → List Char × List Char} {spelling : List Char}
    {f : List Char → Token} {t : Token} (whole : ∀ s, (scan s).1 ++ (scan s).2 = s)
    (ends : scan (spelling ++ after) = (spelling, after) → scan (spelling ++ z) = (spelling, z))
    (h : (f (scan (spelling ++ after)).1, (scan (spelling ++ after)).2) = (t, after)) :
    scan (spelling ++ after) = (spelling, after) ∧ scan (spelling ++ z) = (spelling, z) ∧
      f spelling = t := by
  obtain ⟨ht, hrest⟩ := Prod.mk.inj h
  have htaken : (scan (spelling ++ after)).1 = spelling := by
    have hwhole := whole (spelling ++ after)
    rw [hrest] at hwhole
    exact List.append_cancel_right hwhole
  have hscan : scan (spelling ++ after) = (spelling, after) := Prod.ext htaken hrest
  exact ⟨hscan, ends hscan, htaken ▸ ht⟩

/-- Behind a point, digits are ahead in both texts or in neither. -/
theorem any_isDigit_append (spelling : List Char) (hz : EndsAlike after z)
    (h : spelling = [] → after.head?.any Char.isDigit = false) :
    (spelling ++ z).head?.any Char.isDigit = (spelling ++ after).head?.any Char.isDigit := by
  cases spelling with
  | nil =>
    have hnone := hz.any_head?_eq_false
      (fun c hc => extendsToken_of_continuesName (continuesName_of_isDigit hc)) (h rfl)
    rw [List.nil_append, List.nil_append, h rfl, hnone]
  | cons e rest => rfl

theorem scanToken_point (operatorPlace : Bool) (s : List Char) :
    scanToken operatorPlace '.' s =
      if s.head?.any Char.isDigit then
        .ok (numberToken ('.' :: (scanNumber true s).1), (scanNumber true s).2)
      else .ok (ifNext '.' .doubleDot .dot s) :=
  rfl

/-- A point ends alike whichever of these it begins. -/
theorem scanToken_point_endsAlike (operatorPlace : Bool) {spelling : List Char} {t : Token}
    (h : scanToken operatorPlace '.' (spelling ++ after) = .ok (t, after)) (hz : EndsAlike after z) :
    scanToken operatorPlace '.' (spelling ++ z) = .ok (t, z) := by
  rw [scanToken_point] at h ⊢
  split at h
  case isTrue hdigit =>
    obtain ⟨htaken, hscan, ht⟩ := taken_endsAlike (f := fun s => numberToken ('.' :: s))
      (scanNumber_append_eq true) (fun htaken => scanNumber_endsAlike htaken hz) (Except.ok.inj h)
    have hhead := any_isDigit_append spelling hz fun hnil => by
      rw [hnil, List.nil_append, scanNumber_eq_nil_iff] at htaken
      exact any_eq_false_of_imp (fun c hc => by rw [hc, Bool.true_or]) htaken
    rw [if_pos (hhead ▸ hdigit), hscan]
    exact congrArg (fun t => Except.ok (t, z)) ht
  case isFalse hdigit =>
    have hhead := any_isDigit_append spelling hz fun hnil => by
      rw [hnil, List.nil_append, Bool.not_eq_true] at hdigit
      exact hdigit
    rw [if_neg (by rw [hhead]; exact hdigit)]
    exact congrArg Except.ok (ifNext_endsAlike (by decide +kernel) (Except.ok.inj h) hz)

/-- In front of what ends tokens alike, the same token is found. -/
theorem scanToken_endsAlike {operatorPlace : Bool} {spelling : List Char} {t : Token}
    (h : scanToken operatorPlace c (spelling ++ after) = .ok (t, after)) (hz : EndsAlike after z) :
    scanToken operatorPlace c (spelling ++ z) = .ok (t, z) := by
  revert h
  unfold scanToken
  split
  case h_1 u hsingle => exact alone_endsAlike
  case h_2 hsingle =>
    -- The first characters that the scanner tells apart, in its order.
    split
    · exact fun h => congrArg Except.ok (ifNext_endsAlike (by decide +kernel) (Except.ok.inj h) hz)
    · exact fun h => congrArg Except.ok (ifNext_endsAlike (by decide +kernel) (Except.ok.inj h) hz)
    · exact fun h => congrArg Except.ok (ifNext_endsAlike (by decide +kernel) (Except.ok.inj h) hz)
    · intro h
      split at h
      · rename_i rest hrest
        cases h
        obtain rfl : spelling = ['='] := List.append_cancel_right hrest
        rfl
      · cases h
    · intro h
      split at h
      · rename_i rest hrest
        cases h
        obtain rfl : spelling = [':'] := List.append_cancel_right hrest
        rfl
      · cases h
    · exact alone_endsAlike
    · exact fun h => scanToken_point_endsAlike operatorPlace h hz
    · intro h
      cases h
    · intro h
      split at h
      case isTrue hquote =>
        rw [if_pos hquote]
        split at h
        · cases h
        · rename_i e rest hdrop
          cases h
          obtain ⟨hdrop, htake⟩ := quoted_endsAlike z hdrop
          rw [hdrop, htake]
      case isFalse hquote =>
        rw [if_neg hquote]
        split at h
        case isTrue hdigit =>
          obtain ⟨-, hscan, ht⟩ := taken_endsAlike (f := fun s => numberToken (c :: s))
            (scanNumber_append_eq false) (fun htaken => scanNumber_endsAlike htaken hz)
            (Except.ok.inj h)
          rw [if_pos hdigit, hscan]
          exact congrArg (fun t => Except.ok (t, z)) ht
        case isFalse hdigit =>
          rw [if_neg hdigit]
          split at h
          case isTrue hbegins =>
            obtain ⟨-, hscan, ht⟩ := taken_endsAlike
              (f := fun s => wordToken operatorPlace (String.ofList (c :: s))) scanName_append_eq
              (fun htaken => scanName_endsAlike htaken hz) (Except.ok.inj h)
            rw [if_pos hbegins, hscan]
            exact congrArg (fun t => Except.ok (t, z)) ht
          case isFalse => cases h

end Scanning

section Tokens

variable {before : Option Token} {s z : List Char} {ts : List Token}

theorem scanToken_colon (operatorPlace : Bool) (s : List Char) :
    scanToken operatorPlace ':' s =
      match s with
      | ':' :: rest => .ok (.doubleColon, rest)
      | _ => .error .character :=
  rfl

/-- A colon is scanned only together with a second one. -/
theorem eq_colon_of_scanToken {operatorPlace : Bool} {spelling after : List Char} {t : Token}
    (h : scanToken operatorPlace ':' (spelling ++ after) = .ok (t, after)) : spelling = [':'] := by
  rw [scanToken_colon] at h
  split at h
  · rename_i rest hrest
    cases h
    exact List.append_cancel_right hrest
  · cases h

/-- A text that is widened ends what is in front of it as it did before. -/
theorem Widened.endsAlike (h : Widened before s z) : EndsAlike s z := by
  cases h with
  | done => exact .inl rfl
  | kept blank others => exact .inl (extendsToken_of_isBlank blank)
  | added blank others => exact .inl (extendsToken_of_isBlank blank)
  | token visible scanned others =>
    refine .inr ⟨rfl, fun hcolon => ?_⟩
    obtain rfl := Option.some.inj hcolon
    rw [eq_colon_of_scanToken scanned]
    rfl

/-- Blanks between tokens change none of them. -/
theorem tokensAfter_widened (hw : Widened before s z) (h : tokensAfter before s = .ok ts) :
    tokensAfter before z = .ok ts := by
  induction hw generalizing ts with
  | done => exact h
  | kept blank others ih =>
    rw [tokensAfter_blank blank] at h ⊢
    exact ih h
  | added blank others ih =>
    rw [tokensAfter_blank blank]
    exact ih h
  | token visible scanned others ih =>
    rw [tokensAfter_cons visible scanned] at h
    obtain ⟨us, hus, rfl⟩ := ok_of_map h
    rw [tokensAfter_cons visible (scanToken_endsAlike scanned others.endsAlike), ih hus]
    rfl

end Tokens

/-- A query of tokens consists of the same tokens, and so says the same, when blanks are added in front
of the first token, behind the last one or between two of them. -/
theorem tokenize_widened {query wider : String} {ts : List Token} (h : tokenize query = .ok ts)
    (hw : Widened none query.toList wider.toList) :
    tokenize wider = .ok ts ∧ Expr.parse wider = Expr.parse query := by
  have hwider : tokenize wider = .ok ts := by
    rw [tokenize_eq_ok_iff] at h ⊢
    exact tokensAfter_widened hw h
  exact ⟨hwider, by rw [Expr.parse, Expr.parse, h, hwider]⟩

/-- Blanks at both ends, around an axis sign and in front of a star that multiplies. -/
theorem tokenize_widened_product :
    ∃ ts, tokenize "self::a*b" = .ok ts ∧
      Widened none "self::a*b".toList " self\t:: a\u3000* b\n".toList ∧
      tokenize " self\t:: a\u3000* b\n" = .ok ts ∧
      Expr.parse " self\t:: a\u3000* b\n" = Expr.parse "self::a*b" := by
  have hquery : "self::a*b".toList = ['s', 'e', 'l', 'f', ':', ':', 'a', '*', 'b'] := by
    decide
  have hwider : " self\t:: a\u3000* b\n".toList =
      [' ', 's', 'e', 'l', 'f', '\t', ':', ':', ' ', 'a', '\u3000', '*', ' ', 'b', '\n'] := by
    decide
  have hscan : tokensAfter none "self::a*b".toList = .ok [.name "self", .doubleColon, .name "a",
      .operator (.arith .mul), .name "b"] := by
    rw [hquery]
    decide +kernel
  have h := tokenize_eq_ok_iff.mpr hscan
  have hw : Widened none "self::a*b".toList " self\t:: a\u3000* b\n".toList := by
    rw [hquery, hwider]
    refine .added (by decide) ?_
    refine @Widened.token _ 's' ['e', 'l', 'f'] _ _ (.name "self") (by decide) rfl ?_
    refine .added (by decide) ?_
    refine @Widened.token _ ':' [':'] _ _ .doubleColon (by decide) rfl ?_
    refine .added (by decide) ?_
    refine @Widened.token _ 'a' [] _ _ (.name "a") (by decide) rfl ?_
    refine .added (by decide) ?_
    refine @Widened.token _ '*' [] _ _ (.operator (.arith .mul)) (by decide) rfl ?_
    refine .added (by decide) ?_
    refine @Widened.token _ 'b' [] [] ['\n'] (.name "b") (by decide) rfl ?_
    exact .added (by decide) .done
  exact ⟨_, h, hw, tokenize_widened h hw⟩

end ComputedField.Query
