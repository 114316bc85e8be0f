import ComputedField.Proofs.Markup.CharacterData
import Mathlib.Data.List.Induction

/-!
# References in text and in attribute values

The same reference is read by one rule in text and by another in an attribute value. Both know the
same names, and the same numbers but for two kinds: only text admits a number with a plus sign, and
only text admits the number zero. Where both admit a reference, they give it the same character.
-/

namespace ComputedField.Markup

open Text Decimal

/-- A reference that text alone admits, with the character it stands for there. -/
inductive OnlyInText : List Char → Char → Prop where
  | signed {radix : Radix} {digits : List Char} {c : Char} (nonempty : digits ≠ [])
      (number : IsNumber radix digits c.toNat) : OnlyInText (radixMark radix ++ '+' :: digits) c
  | zero {radix : Radix} {digits : List Char} (nonempty : digits ≠ [])
      (number : IsNumber radix digits 0) : OnlyInText (radixMark radix ++ digits) (Char.ofNat 0)

section Numbers

variable {radix : Radix} {s digits : List Char} {n : Nat} {c : Char}

theorem spelled_of_toNat {v : Nat} (hv : v < 16)
    (h : c.toNat = v + 48 ∧ v < 10 ∨ c.toNat = v + 87 ∧ 10 ≤ v ∨ c.toNat = v + 55 ∧ 10 ≤ v) :
    c = Nat.digitChar v ∨ c = (Nat.digitChar v).toUpper := by
  have decimal : ∀ v < 10, (Nat.digitChar v).toNat = v + 48 := by decide
  have small : ∀ v < 16, 10 ≤ v → (Nat.digitChar v).toNat = v + 87 := by decide
  have capital : ∀ v < 16, 10 ≤ v → (Nat.digitChar v).toUpper.toNat = v + 55 := by decide
  rcases h with ⟨hc, hv'⟩ | ⟨hc, hv'⟩ | ⟨hc, hv'⟩
  · exact .inl (Char.toNat_inj.mp (hc.trans (decimal v hv').symm))
  · exact .inl (Char.toNat_inj.mp (hc.trans (small v hv hv').symm))
  · exact .inr (Char.toNat_inj.mp (hc.trans (capital v hv hv').symm))

/-- A digit that is read is spelled as the numeral of its value, in either case. -/
theorem spelled_of_digit? {v : Nat} (h : radix.digit? c = some v) :
    v < radix.base ∧ (c = Nat.digitChar v ∨ c = (Nat.digitChar v).toUpper) := by
  have digit : c.isDigit = true → 48 ≤ c.toNat ∧ c.toNat ≤ 57 := by
    intro hc
    simpa [Char.isDigit, UInt32.le_iff_toNat_le] using hc
  have small : 'a' ≤ c ∧ c ≤ 'f' → 97 ≤ c.toNat ∧ c.toNat ≤ 102 := by
    intro hc
    simpa [Char.le_def, UInt32.le_iff_toNat_le] using hc
  have capital : 'A' ≤ c ∧ c ≤ 'F' → 65 ≤ c.toNat ∧ c.toNat ≤ 70 := by
    intro hc
    simpa [Char.le_def, UInt32.le_iff_toNat_le] using hc
  have hzero : '0'.toNat = 48 := rfl
  have ha : 'a'.toNat = 97 := rfl
  have hA : 'A'.toNat = 65 := rfl
  cases radix with
  | decimal =>
    simp only [Radix.digit?, decimalDigit?, Option.ite_none_right_eq_some, Option.some.injEq] at h
    obtain ⟨hc, hv⟩ := h
    have := digit hc
    exact ⟨by rw [Radix.base]; omega, spelled_of_toNat (by omega) (.inl (by omega))⟩
  | hexadecimal =>
    rw [Radix.base]
    simp only [Radix.digit?, hexDigit?] at h
    split at h
    · rename_i hc
      have := digit hc
      have hv := Option.some.inj h
      exact ⟨by omega, spelled_of_toNat (by omega) (.inl (by omega))⟩
    · split at h
      · rename_i hc
        have := small hc
        have hv := Option.some.inj h
        exact ⟨by omega, spelled_of_toNat (by omega) (.inr (.inl (by omega)))⟩
      · split at h
        · rename_i hc
          have := capital hc
          have hv := Option.some.inj h
          exact ⟨by omega, spelled_of_toNat (by omega) (.inr (.inr (by omega)))⟩
        · cases h

/-- Only digits are read as a number. -/
theorem isNumber_of_digitsAfter (h : digitsAfter radix 0 s = some n) : IsNumber radix s n := by
  induction s using List.reverseRecOn generalizing n with
  | nil =>
    cases h
    exact .nil
  | append_singleton before c ih =>
    rw [digitsAfter_append_singleton] at h
    obtain ⟨k, hk, h⟩ := Option.bind_eq_some_iff.mp h
    obtain ⟨v, hv, rfl⟩ := Option.map_eq_some_iff.mp h
    obtain ⟨hlt, hspelled⟩ := spelled_of_digit? hv
    exact .digit (ih hk) hlt hspelled

/-- A natural is one digit or more, of the base that counts. -/
theorem natural?_eq_some_iff : natural? radix s = some n ↔ s ≠ [] ∧ IsNumber radix s n := by
  cases s with
  | nil => simp [natural?]
  | cons c rest =>
    have hne : (c :: rest).isEmpty = false := rfl
    rw [natural?, hne, if_neg (by decide)]
    constructor
    · intro h
      exact ⟨by simp, isNumber_of_digitsAfter h⟩
    · rintro ⟨-, h⟩
      exact h.digitsAfter_eq

theorem digitsAfter_cons_eq_none {k : Nat} (hc : radix.digit? c = none) :
    digitsAfter radix k (c :: s) = none := by
  rw [digitsAfter, hc, Option.bind_none]

theorem digit?_plus (radix : Radix) : radix.digit? '+' = none := by
  cases radix <;> decide

theorem digit?_letter (radix : Radix) : radix.digit? 'x' = none := by
  cases radix <;> decide

theorem IsNumber.head?_ne (h : IsNumber radix s n) (hc : radix.digit? c = none) :
    s.head? ≠ some c := by
  intro hs
  obtain ⟨rest, rfl⟩ := List.head?_eq_some_iff.mp hs
  have hread := h.digitsAfter_eq
  rw [digitsAfter_cons_eq_none hc] at hread
  cases hread

/-- The sign in front of a number in text, if it has one, is a plus. -/
theorem signedNatural?_eq_some_iff : signedNatural? radix s = some n ↔
    natural? radix s = some n ∨ ∃ digits, s = '+' :: digits ∧ natural? radix digits = some n := by
  unfold signedNatural?
  split
  · rename_i rest
    have hsign : natural? radix ('+' :: rest) ≠ some n := by
      rw [Ne, natural?_eq_some_iff]
      rintro ⟨-, h⟩
      exact h.head?_ne (digit?_plus radix) rfl
    constructor
    · intro h
      exact .inr ⟨rest, rfl, h⟩
    · rintro (h | ⟨digits, heq, h⟩)
      · exact absurd h hsign
      · cases heq
        exact h
  · rename_i hne
    constructor
    · exact .inl
    · rintro (h | ⟨digits, rfl, -⟩)
      · exact h
      · exact absurd rfl (hne digits)

end Numbers

section Resolving

variable {place : Place} {name s : List Char} {c : Char}

/-- What a number in a reference may be, by the place of the reference. -/
def Place.Admits (place : Place) (radix : Radix) (s : List Char) (n : Nat) : Prop :=
  match place with
  | .text => s ≠ [] ∧ IsNumber radix s n ∨ ∃ digits, s = '+' :: digits ∧ digits ≠ [] ∧
      IsNumber radix digits n
  | .attribute => s ≠ [] ∧ IsNumber radix s n ∧ n ≠ 0

/-- What counts as a number is decided by the place: text lets a plus sign in front, and zero. -/
theorem number?_eq_some_iff {radix : Radix} {n : Nat} :
    place.number? radix s = some n ∧ (n = 0 → place = .text) ↔ place.Admits radix s n := by
  match place with
  | .text =>
    simp only [Place.number?, signedNatural?_eq_some_iff, natural?_eq_some_iff, implies_true,
      and_true]
    rfl
  | .attribute =>
    simp only [Place.number?, natural?_eq_some_iff, reduceCtorEq, imp_false, and_assoc]
    rfl

theorem Place.Admits.head?_ne {radix : Radix} {n : Nat} (h : place.Admits radix s n) :
    s.head? ≠ some 'x' := by
  match place, h with
  | .text, .inl h => exact h.2.head?_ne (digit?_letter radix)
  | .text, .inr h =>
    obtain ⟨digits, rfl, -⟩ := h
    simp
  | .attribute, h => exact h.2.1.head?_ne (digit?_letter radix)

/-- The mark of the radix and what follows it are told from the whole, as no number begins with `x`. -/
theorem radixMark_append_inj {r r' : Radix} {s s' : List Char} (hs : s.head? ≠ some 'x')
    (hs' : s'.head? ≠ some 'x') (h : radixMark r ++ s = radixMark r' ++ s') : r = r' ∧ s = s' := by
  cases r <;> cases r' <;> simp only [radixMark, List.cons_append, List.nil_append,
    List.cons.injEq, true_and] at h
  · exact ⟨rfl, h⟩
  · exact absurd (by rw [h]; rfl) hs
  · exact absurd (by rw [← h]; rfl) hs'
  · exact ⟨rfl, h⟩

/-- The character that a number stands for is the one with that number. -/
theorem numbered_eq_some_iff {code : Option Nat} : (code.bind fun n =>
      if n.isValidChar ∧ (n = 0 → place = .text) then some (Char.ofNat n) else none) = some c ↔
    code = some c.toNat ∧ (c.toNat = 0 → place = .text) := by
  rw [Option.bind_eq_some_iff]
  constructor
  · rintro ⟨n, hn, h⟩
    obtain ⟨⟨hvalid, hplace⟩, hc⟩ := Option.ite_none_right_eq_some.mp h
    cases hc
    have hnat : (Char.ofNat n).toNat = n := by
      rw [Char.ofNat, dif_pos hvalid]
      rfl
    rw [hnat]
    exact ⟨hn, hplace⟩
  · rintro ⟨hn, hplace⟩
    exact ⟨c.toNat, hn, by rw [if_pos ⟨c.valid, hplace⟩, Char.ofNat_toNat]⟩

/-- A number behind the number sign names the character with its code, in one base or the other. -/
theorem character?_eq_some_iff : place.character? s = some c ↔
    ∃ radix digits, '#' :: s = radixMark radix ++ digits ∧ place.Admits radix digits c.toNat := by
  unfold Place.character?
  rw [numbered_eq_some_iff]
  split
  · rename_i hex
    rw [number?_eq_some_iff]
    constructor
    · intro h
      exact ⟨.hexadecimal, hex, rfl, h⟩
    · rintro ⟨radix, digits, heq, h⟩
      cases radix with
      | decimal =>
        cases heq
        exact absurd rfl h.head?_ne
      | hexadecimal =>
        cases heq
        exact h
  · rename_i hne
    rw [number?_eq_some_iff]
    constructor
    · intro h
      exact ⟨.decimal, s, rfl, h⟩
    · rintro ⟨radix, digits, heq, h⟩
      cases radix with
      | decimal =>
        cases heq
        exact h
      | hexadecimal =>
        cases heq
        exact absurd rfl (hne digits)

/-- The mark of the base is told from the digits, which do not begin like it. -/
theorem resolve?_radixMark {radix : Radix} (hs : s.head? ≠ some 'x') :
    place.resolve? (radixMark radix ++ s) = some c ↔ place.Admits radix s c.toNat := by
  have hnumber : place.resolve? (radixMark radix ++ s) = some c ↔ ∃ r digits,
      radixMark radix ++ s = radixMark r ++ digits ∧ place.Admits r digits c.toNat := by
    cases radix with
    | decimal => exact character?_eq_some_iff (s := s)
    | hexadecimal => exact character?_eq_some_iff (s := 'x' :: s)
  rw [hnumber]
  constructor
  · rintro ⟨r, digits, heq, h⟩
    obtain ⟨rfl, rfl⟩ := radixMark_append_inj hs h.head?_ne heq
    exact h
  · intro h
    exact ⟨radix, s, rfl, h⟩

/-- A reference that only text admits stands for its character there, and for none elsewhere. -/
theorem OnlyInText.resolve? (h : OnlyInText name c) :
    Place.text.resolve? name = some c ∧ Place.attribute.resolve? name = none := by
  rw [Option.eq_none_iff_forall_ne_some]
  cases h with
  | @signed radix digits _ nonempty number =>
    have hx : ('+' :: digits).head? ≠ some 'x' := by simp
    refine ⟨(resolve?_radixMark hx).mpr (.inr ⟨_, rfl, nonempty, number⟩), fun d hd => ?_⟩
    obtain ⟨-, hsign, -⟩ := (resolve?_radixMark hx).mp hd
    exact hsign.head?_ne (digit?_plus _) rfl
  | zero nonempty number =>
    have hx := number.head?_ne (digit?_letter _)
    refine ⟨(resolve?_radixMark hx).mpr (.inl ⟨nonempty, number⟩), fun d hd => ?_⟩
    obtain ⟨-, hd, hpos⟩ := (resolve?_radixMark hx).mp hd
    have hzero := number.digitsAfter_eq.symm.trans hd.digitsAfter_eq
    exact hpos (Option.some.inj hzero).symm

/-- Text admits what an attribute value does, with the same character, and besides only what it
alone admits. -/
theorem resolve?_text_iff : Place.text.resolve? name = some c ↔
    Place.attribute.resolve? name = some c ∨ OnlyInText name c := by
  have hnumber : ∀ number, Place.text.character? number = some c ↔
      Place.attribute.character? number = some c ∨ OnlyInText ('#' :: number) c := by
    intro number
    constructor
    · intro h
      obtain ⟨radix, digits, heq, h⟩ := character?_eq_some_iff.mp h
      rw [heq, character?_eq_some_iff]
      rcases h with ⟨nonempty, h⟩ | ⟨rest, rfl, nonempty, h⟩
      · by_cases hzero : c.toNat = 0
        · have hc : c = Char.ofNat 0 := by rw [← hzero, Char.ofNat_toNat]
          rw [hzero] at h
          rw [hc]
          exact .inr (.zero nonempty h)
        · exact .inl ⟨radix, digits, heq, nonempty, h, hzero⟩
      · exact .inr (.signed nonempty h)
    · rintro (h | h)
      · obtain ⟨radix, digits, heq, nonempty, h, -⟩ := character?_eq_some_iff.mp h
        exact character?_eq_some_iff.mpr ⟨radix, digits, heq, .inl ⟨nonempty, h⟩⟩
      · exact h.resolve?.1
  by_cases hmark : ∃ number, name = '#' :: number
  · obtain ⟨number, rfl⟩ := hmark
    exact hnumber number
  · have hentity : ∀ place : Place, place.resolve? name = entity? name := by
      intro place
      unfold Place.resolve?
      split
      · exact absurd ⟨_, rfl⟩ hmark
      · rfl
    have honly : ¬ OnlyInText name c := by
      intro h
      cases h with
      | @signed radix => cases radix <;> exact hmark ⟨_, rfl⟩
      | @zero radix => cases radix <;> exact hmark ⟨_, rfl⟩
    rw [hentity, hentity, or_iff_left honly]

end Resolving

def inText (name : String) : String := "<a>x&" ++ name ++ ";</a>"

def inAttribute (name : String) : String := "<a b=\"x&" ++ name ++ ";\"/>"

def Document.HoldsText (d : Document) (value : String) : Prop :=
  ∃ e n, d.documentElement? = some e ∧ d.children e = [n] ∧ d.kind? n = some .text ∧
    d.stringValue n = value

def Document.HoldsAttribute (d : Document) (value : String) : Prop :=
  ∃ e n, d.documentElement? = some e ∧ d.attributes e = [n] ∧ d.kind? n = some .attribute ∧
    d.stringValue n = value

/-- A name with no character that ends a reference, a value or a tag. -/
def IsReferenceName (name : List Char) : Prop := ∀ c ∈ name, c ∉ ['&', ';', '<', '>', '\'', '"']

instance : DecidablePred IsReferenceName := fun name =>
  List.decidableBAll (fun c => c ∉ ['&', ';', '<', '>', '\'', '"']) name

section Reading

variable {name : String}

/-- In text it is all up to the reference: what it resolves to is read behind the `x`. -/
theorem readContent_inText (h : IsReferenceName name.toList) : readContent (inText name) =
    (resolveInText name.toList).map fun c =>
      [.element "a" [] [.text (String.ofList ['x', c])]] := by
  have hn : IsName "a" := by decide
  have hscan : scanReference (name.toList ++ ';' :: '<' :: '/' :: ("a".toList ++ ['>'])) =
      .ok (name.toList, '<' :: '/' :: ("a".toList ++ ['>'])) := by
    refine scanReference_append (fun c hc => ?_) _
    have hapart := h c hc
    simp only [List.mem_cons, not_or] at hapart
    exact ⟨hapart.2.1, hapart.1, hapart.2.2.1⟩
  have htext : (inText name).toList = '<' :: (tagText "a" [] ++ '>' :: 'x' :: '&' ::
      (name.toList ++ ';' :: '<' :: '/' :: ("a".toList ++ ['>']))) := by
    simp [inText, tagText]
  rw [readContent_eq_resume htext (by decide),
    Progress.resume_startTag (Progress.flush_of_nil rfl) (.inr rfl) hn wellNamed_nil,
    Progress.resume_plain (by decide), Progress.resume_scanReference hscan]
  cases resolveInText name.toList with
  | error e => rfl
  | ok c =>
    have hblank : ['x', c].all isBlank = false := by
      rw [List.all_cons, show isBlank 'x' = false by decide, Bool.false_and]
    have hflush := Progress.flush_gather_of_text (p := Progress.start.inside "a" []) rfl hblank
      (by simp [Progress.inside])
    change (((Progress.start.inside "a" []).gather ['x']).gather [c]).resume _ = _
    rw [Progress.gather_gather, List.singleton_append, Progress.resume_endTag hflush rfl hn,
      Progress.resume_nil]
    rfl

theorem unescapeAfter_name {name : List Char} (h : ∀ c ∈ name, c ≠ ';' ∧ c ≠ '&')
    (read s : List Char) : unescapeAfter (some read) (name ++ ';' :: s) =
      (Place.attribute.resolve? (read.reverse ++ name)).bind fun d =>
        (unescapeAfter none s).map (d :: ·) := by
  induction name generalizing read with
  | nil => rw [List.nil_append, unescapeAfter, if_pos rfl, List.append_nil]
  | cons c rest ih =>
    obtain ⟨hend, hamp⟩ := h c List.mem_cons_self
    rw [List.cons_append, unescapeAfter, if_neg hend, if_neg hamp,
      ih fun d hd => h d (List.mem_cons_of_mem c hd), List.reverse_cons, List.append_assoc,
      List.singleton_append]

/-- In an attribute, what the reference resolves to is read behind the `x`. -/
theorem unescape?_reference {name : List Char} (h : IsReferenceName name) :
    unescape? ('x' :: '&' :: (name ++ [';'])) =
      (Place.attribute.resolve? name).map fun c => ['x', c] := by
  have hapart : ∀ c ∈ name, c ≠ ';' ∧ c ≠ '&' := by
    intro c hc
    have hapart := h c hc
    simp only [List.mem_cons, not_or] at hapart
    exact ⟨hapart.2.1, hapart.1⟩
  rw [unescape?, unescapeAfter, if_neg (by decide), unescapeAfter, if_pos rfl,
    unescapeAfter_name hapart [] [], List.reverse_nil, List.nil_append]
  cases Place.attribute.resolve? name <;> rfl

theorem enter_spelled {raw : List Char} (hraw : '"' ∉ raw) :
    Progress.start.enter ("a".toList ++ spelledAttribute "b" raw) =
      match unescape? raw with
      | none => .error .attributeValue
      | some value => .ok ("a", [⟨"b", String.ofList value⟩]) := by
  have hn : IsName "a" := by decide
  have hb : IsName "b" := by decide
  have htag : attributeText ("a".toList ++ spelledAttribute "b" raw) = spelledAttribute "b" raw :=
    dropWhile_append_cons hn.notSpace (by decide)
  have hname : tagName ("a".toList ++ spelledAttribute "b" raw) = "a".toList :=
    takeWhile_append_cons hn.notSpace (by decide)
  have hread := readAttributes_spelled hb (show "b" ∉ [] by simp) hraw []
  rw [List.append_nil] at hread
  rw [Progress.enter, attributesOf, htag, hname, hread, if_neg (by decide)]
  cases unescape? raw with
  | none => rfl
  | some value =>
    have hend : readAttributes ["b"] [] = .ok [] := by
      rw [readAttributes]
      rfl
    simp only [hend, Except.map, String.ofList_toList]

theorem readContent_inAttribute (h : IsReferenceName name.toList) : readContent (inAttribute name) =
    match Place.attribute.resolve? name.toList with
    | none => .error .attributeValue
    | some c => .ok [.element "a" [⟨"b", String.ofList ['x', c]⟩] []] := by
  have hn : IsName "a" := by decide
  have hb : IsName "b" := by decide
  have hraw : '"' ∉ 'x' :: '&' :: (name.toList ++ [';']) := by
    have hquote : '"' ∉ name.toList := fun hc => h _ hc (by decide)
    simpa using hquote
  have htag := scanTag_name hn (scanTag_spelled hb hraw (v := ['/', '>']) rfl)
  have hscan : scan '<' ("a".toList ++ (spelledAttribute "b" ('x' :: '&' :: (name.toList ++ [';'])) ++
      ['/', '>'])) = .ok (.emptyTag ("a".toList ++
        spelledAttribute "b" ('x' :: '&' :: (name.toList ++ [';']))), []) := by
    rw [scan, if_pos rfl, scanMarkup_name hn, htag, ← List.append_assoc]
    simp only [Except.map, openingTag, List.getLast?_concat, List.dropLast_concat, if_true]
  have htext : (inAttribute name).toList = '<' :: ("a".toList ++
      (spelledAttribute "b" ('x' :: '&' :: (name.toList ++ [';'])) ++ ['/', '>'])) := by
    simp [inAttribute, spelledAttribute]
  rw [readContent_eq_resume htext (by decide), Progress.resume_of_scan hscan, Progress.step,
    Progress.flush_of_nil rfl]
  change (Progress.start.enter _ >>= _).bind _ = _
  rw [enter_spelled hraw, unescape?_reference h]
  cases Place.attribute.resolve? name.toList with
  | none => rfl
  | some c => exact Progress.resume_nil _

theorem parse_inText_eq_ok_iff (h : IsReferenceName name.toList) {d : Document} :
    Document.parse (inText name) = .ok d ↔ ∃ c, Place.text.resolve? name.toList = some c ∧
      .ofContent [.element "a" [] [.text (String.ofList ['x', c])]] = d := by
  rw [Document.parse, readContent_inText h, resolveInText]
  cases Place.text.resolve? name.toList with
  | none => simp [Except.map]
  | some c => simp [Except.map]

theorem parse_inAttribute_eq_ok_iff (h : IsReferenceName name.toList) {d : Document} :
    Document.parse (inAttribute name) = .ok d ↔ ∃ c, Place.attribute.resolve? name.toList = some c ∧
      .ofContent [.element "a" [⟨"b", String.ofList ['x', c]⟩] []] = d := by
  rw [Document.parse, readContent_inAttribute h]
  cases Place.attribute.resolve? name.toList with
  | none => simp [Except.map]
  | some c => simp [Except.map]

theorem holdsText_ofContent (value : String) :
    (Document.ofContent [.element "a" [] [.text value]]).HoldsText value :=
  ⟨1, 2, rfl, rfl, rfl, rfl⟩

theorem holdsAttribute_ofContent (value : String) :
    (Document.ofContent [.element "a" [⟨"b", value⟩] []]).HoldsAttribute value :=
  ⟨1, 2, rfl, rfl, rfl, rfl⟩

theorem OnlyInText.parse {c : Char} (hc : OnlyInText name.toList c)
    (h : IsReferenceName name.toList) :
    (∃ d, Document.parse (inText name) = .ok d) ∧
      ¬ ∃ d, Document.parse (inAttribute name) = .ok d := by
  refine ⟨⟨_, (parse_inText_eq_ok_iff h).mpr ⟨c, hc.resolve?.1, rfl⟩⟩, ?_⟩
  rintro ⟨d, hd⟩
  obtain ⟨c', hc', -⟩ := (parse_inAttribute_eq_ok_iff h).mp hd
  rw [hc.resolve?.2] at hc'
  cases hc'

/-- Text is read with a reference exactly if an attribute value is, or if the reference is to a number
with a plus sign or to zero, which no attribute value may hold. Where both are read, they are the
same. -/
theorem parse_inText_iff_inAttribute (h : IsReferenceName name.toList) :
    ((∃ d, Document.parse (inText name) = .ok d) ↔
      (∃ d, Document.parse (inAttribute name) = .ok d) ∨ ∃ c, OnlyInText name.toList c) ∧
    (∀ c, OnlyInText name.toList c → ¬ ∃ d, Document.parse (inAttribute name) = .ok d) ∧
    ∀ d e, Document.parse (inText name) = .ok d → Document.parse (inAttribute name) = .ok e →
      ∃ value, d.HoldsText value ∧ e.HoldsAttribute value := by
  refine ⟨?_, fun c hc => (hc.parse h).2, ?_⟩
  · constructor
    · rintro ⟨d, hd⟩
      obtain ⟨c, hc, -⟩ := (parse_inText_eq_ok_iff h).mp hd
      rcases resolve?_text_iff.mp hc with hc | hc
      · exact .inl ⟨_, (parse_inAttribute_eq_ok_iff h).mpr ⟨c, hc, rfl⟩⟩
      · exact .inr ⟨c, hc⟩
    · rintro (⟨d, hd⟩ | ⟨c, hc⟩)
      · obtain ⟨c, hc, -⟩ := (parse_inAttribute_eq_ok_iff h).mp hd
        exact ⟨_, (parse_inText_eq_ok_iff h).mpr ⟨c, resolve?_text_iff.mpr (.inl hc), rfl⟩⟩
      · exact (hc.parse h).1
  · intro d e hd he
    obtain ⟨c, hc, rfl⟩ := (parse_inText_eq_ok_iff h).mp hd
    obtain ⟨c', hc', rfl⟩ := (parse_inAttribute_eq_ok_iff h).mp he
    have hsame := hc.symm.trans (resolve?_text_iff.mpr (.inl hc'))
    rw [Option.some.inj hsame]
    exact ⟨_, holdsText_ofContent _, holdsAttribute_ofContent _⟩

/-- A number in hexadecimal digits of both cases, with zeros in front. -/
theorem parse_inText_iff_inAttribute_hexadecimal : IsReferenceName "#x00eC".toList ∧
    ∃ d e, Document.parse (inText "#x00eC") = .ok d ∧ Document.parse (inAttribute "#x00eC") = .ok e ∧
      ∃ value, d.HoldsText value ∧ e.HoldsAttribute value := by
  have h : IsReferenceName "#x00eC".toList := by decide
  obtain ⟨d, hd⟩ : ∃ d, Document.parse (inText "#x00eC") = .ok d :=
    ⟨_, (parse_inText_eq_ok_iff h).mpr ⟨'ì', by decide, rfl⟩⟩
  obtain ⟨e, he⟩ : ∃ e, Document.parse (inAttribute "#x00eC") = .ok e :=
    ⟨_, (parse_inAttribute_eq_ok_iff h).mpr ⟨'ì', by decide, rfl⟩⟩
  exact ⟨h, d, e, hd, he, (parse_inText_iff_inAttribute h).2.2 d e hd he⟩

/-- Numbers with a plus sign, and zero, are read in text and refused in an attribute value. -/
theorem parse_inText_plus_and_zero :
    ((∃ d, Document.parse (inText "#+65") = .ok d) ∧
      ¬ ∃ d, Document.parse (inAttribute "#+65") = .ok d) ∧
    (∃ d, Document.parse (inText "#0") = .ok d) ∧
      ¬ ∃ d, Document.parse (inAttribute "#0") = .ok d := by
  have hplus : OnlyInText "#+65".toList 'A' :=
    @OnlyInText.signed .decimal ['6', '5'] 'A' (by simp) (isNumber_of_digitsAfter (by decide))
  have hzero : OnlyInText "#0".toList (Char.ofNat 0) :=
    @OnlyInText.zero .decimal ['0'] (by simp) (isNumber_of_digitsAfter (by decide))
  exact ⟨hplus.parse (by decide), hzero.parse (by decide)⟩

end Reading

end ComputedField.Markup
