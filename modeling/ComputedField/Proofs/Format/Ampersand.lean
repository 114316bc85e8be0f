import ComputedField.Format.Ampersand
import ComputedField.Proofs.Markup.Reference
import ComputedField.Proofs.Text.Word

/-!
# Which ampersands are escaped

An ampersand is escaped just if what follows it in the text has neither form of a reference, whatever
becomes of its neighbours. Behind every ampersand that is left there stands a reference, and so nothing
is escaped twice. The forms count characters, though: the number of a character may have a single digit,
or seven and more, and then a valid reference is not taken for one.
-/

namespace ComputedField.Format

open Text Markup Decimal

/-- The forms of what stands behind the ampersand of a reference: up to four letters with two or three
word characters behind them, or a number sign and two to six digits of whatever base. -/
inductive IsReference : List Char → Prop where
  | named {letters ending : List Char} (few : letters.length ≤ 4)
      (two_or_three : ending.length = 2 ∨ ending.length = 3)
      (letter : ∀ c ∈ letters, isFoldedLetter c = true) (word : ∀ c ∈ ending, isWord c = true) :
      IsReference (letters ++ ending ++ [';'])
  | numbered {number : List Char} (two_le : 2 ≤ number.length) (le_six : number.length ≤ 6)
      (digit : ∀ c ∈ number, isNumberChar c = true) : IsReference ('#' :: (number ++ [';']))

/-- What stands behind the ampersand of a valid reference: the name of a character that markup reserves,
or the number of any character. -/
inductive IsValidReference : List Char → Prop where
  | entity {name : List Char} {c : Char} (known : entity? name = some c) :
      IsValidReference (name ++ [';'])
  | character {radix : Radix} {digits : List Char} {c : Char} (nonempty : digits ≠ [])
      (number : IsNumber radix digits c.toNat) : IsValidReference (radixMark radix ++ digits ++ [';'])

def BeginsWith (kind : List Char → Prop) (s : List Char) : Prop := ∃ r, kind r ∧ r <+: s

/-- Whether what follows each ampersand is as it should be. -/
def EachAmpersand (fits : List Char → Prop) (s : List Char) : Prop :=
  ∀ before after, s = before ++ '&' :: after → fits after

section Forms

variable {name number rest r s : List Char}

/-- All but the last two or three characters of a name are letters, four at most. -/
theorem isEntityName_iff : isEntityName name = true ↔ ∃ letters ending, name = letters ++ ending ∧
    letters.length ≤ 4 ∧ (ending.length = 2 ∨ ending.length = 3) ∧
    ∀ c ∈ letters, isFoldedLetter c = true := by
  simp only [isEntityName, Bool.and_eq_true, decide_eq_true_eq, List.all_eq_true]
  constructor
  · rintro ⟨⟨htwo, hseven⟩, hletter⟩
    refine ⟨name.take (name.length - 3), name.drop (name.length - 3),
      (List.take_append_drop _ _).symm, ?_, ?_, hletter⟩
    · rw [List.length_take]
      omega
    · rw [List.length_drop]
      omega
  · rintro ⟨letters, ending, rfl, hfew, hending, hletter⟩
    have hlength : (letters ++ ending).length - 3 ≤ letters.length := by
      rw [List.length_append]
      omega
    rw [List.take_append_of_le_length hlength, List.length_append]
    exact ⟨⟨by omega, by omega⟩, fun c hc => hletter c (List.mem_of_mem_take hc)⟩

theorem isReference_name (hname : isEntityName name = true) (hword : ∀ c ∈ name, isWord c = true) :
    IsReference (name ++ [';']) := by
  obtain ⟨letters, ending, rfl, hfew, hending, hletter⟩ := isEntityName_iff.mp hname
  exact .named hfew hending hletter fun c hc => hword c (List.mem_append_right _ hc)

/-- Behind word characters it is the semicolon that makes them a reference. -/
theorem startsReference_name (h : ∀ c ∈ name, isWord c = true) (rest : List Char) :
    startsReference (name ++ ';' :: rest) = isEntityName name := by
  have hhead : ∀ number, name ++ ';' :: rest ≠ '#' :: number := by
    intro number heq
    cases name with
    | nil => cases heq
    | cons c name =>
      have hc := h c List.mem_cons_self
      rw [(List.cons.inj heq).1] at hc
      cases hc
  unfold startsReference
  split
  · exact absurd ‹_› (hhead _)
  · rw [takeWhile_append_cons h (by decide), dropWhile_append_cons h (by decide)]
    exact Bool.and_true _

theorem startsReference_number (h : ∀ c ∈ number, isNumberChar c = true) (rest : List Char) :
    startsReference ('#' :: (number ++ ';' :: rest)) = isNumberName number := by
  rw [startsReference, takeWhile_append_cons h (by decide), dropWhile_append_cons h (by decide)]
  exact Bool.and_true _

theorem isNumberName_iff : isNumberName number = true ↔ 2 ≤ number.length ∧ number.length ≤ 6 := by
  rw [isNumberName, Bool.and_eq_true, decide_eq_true_eq, decide_eq_true_eq]

/-- What stands in front of the first semicolon decides, and a reference has no other one. -/
theorem startsReference_iff : startsReference s = true ↔ BeginsWith IsReference s := by
  constructor
  · intro h
    unfold startsReference at h
    split at h
    · rename_i text
      obtain ⟨hname, hend⟩ := (Bool.and_eq_true _ _).mp h
      obtain ⟨rest, hrest⟩ := List.head?_eq_some_iff.mp (beq_iff_eq.mp hend)
      obtain ⟨htwo, hsix⟩ := isNumberName_iff.mp hname
      refine ⟨_, .numbered htwo hsix (List.all_eq_true.mp List.all_takeWhile), rest, ?_⟩
      rw [List.cons_append, List.append_assoc, List.singleton_append, ← hrest,
        List.takeWhile_append_dropWhile]
    · obtain ⟨hname, hend⟩ := (Bool.and_eq_true _ _).mp h
      obtain ⟨rest, hrest⟩ := List.head?_eq_some_iff.mp (beq_iff_eq.mp hend)
      refine ⟨_, isReference_name hname (List.all_eq_true.mp List.all_takeWhile), rest, ?_⟩
      rw [List.append_assoc, List.singleton_append, ← hrest, List.takeWhile_append_dropWhile]
  · rintro ⟨r, hr, rest, rfl⟩
    cases hr with
    | named few two_or_three letter word =>
      rw [List.append_assoc, List.singleton_append, startsReference_name]
      · exact isEntityName_iff.mpr ⟨_, _, rfl, few, two_or_three, letter⟩
      · intro c hc
        rcases List.mem_append.mp hc with hc | hc
        · exact isWord_of_isFoldedLetter (letter c hc)
        · exact word c hc
    | numbered two_le le_six digit =>
      rw [List.cons_append, List.append_assoc, List.singleton_append, startsReference_number digit]
      exact isNumberName_iff.mpr ⟨two_le, le_six⟩

instance : DecidablePred (BeginsWith IsReference) :=
  fun _ => decidable_of_iff _ startsReference_iff

theorem isEntityName_of_entity? {c : Char} (h : entity? name = some c) :
    isEntityName name = true ∧ ∀ c ∈ name, isWord c = true := by
  have hname : isEntityName name = true ∧ name.all isWord = true := by
    unfold entity? at h
    split_ifs at h <;> subst_vars <;> decide
  exact ⟨hname.1, List.all_eq_true.mp hname.2⟩

/-- The names of the characters that markup reserves have the form of a reference. -/
theorem isReference_entity {c : Char} (h : entity? name = some c) : IsReference (name ++ [';']) :=
  isReference_name (isEntityName_of_entity? h).1 (isEntityName_of_entity? h).2

/-- No reference has another one within it. -/
theorem IsReference.ampersand_notMem (h : IsReference r) : '&' ∉ r := by
  cases h with
  | named few two_or_three letter word =>
    have hletters := mt (letter '&') (by decide)
    have hending := mt (word '&') (by decide)
    simp [hletters, hending]
  | numbered two_le le_six digit =>
    have hnumber := mt (digit '&') (by decide)
    simp [hnumber]

end Forms

section Ampersands

variable {fits other good : List Char → Prop} {r s : List Char} {c : Char}

theorem eachAmpersand_nil : EachAmpersand fits [] := by
  intro before after h
  cases before <;> cases h

theorem eachAmpersand_cons :
    EachAmpersand fits (c :: s) ↔ (c = '&' → fits s) ∧ EachAmpersand fits s := by
  constructor
  · intro h
    refine ⟨?_, fun before after heq => h (c :: before) after (by rw [heq]; rfl)⟩
    rintro rfl
    exact h [] s rfl
  · rintro ⟨hfirst, hrest⟩ before after heq
    cases before with
    | nil =>
      obtain ⟨rfl, rfl⟩ := List.cons.inj heq
      exact hfirst rfl
    | cons d before => exact hrest before after (List.cons.inj heq).2

/-- What has no ampersand may stand in front. -/
theorem eachAmpersand_append (h : '&' ∉ r) :
    EachAmpersand fits (r ++ s) ↔ EachAmpersand fits s := by
  induction r with
  | nil => rfl
  | cons c rest ih =>
    rw [List.mem_cons, not_or] at h
    rw [List.cons_append, eachAmpersand_cons, ih h.2]
    exact and_iff_right fun hc => absurd hc.symm h.1

theorem eachAmpersand_reference {kind : List Char → Prop} (hkind : kind r) (hr : '&' ∉ r) :
    EachAmpersand (BeginsWith kind) ('&' :: (r ++ s)) ↔ EachAmpersand (BeginsWith kind) s := by
  rw [eachAmpersand_cons, eachAmpersand_append hr]
  exact and_iff_right fun _ => ⟨r, hkind, List.prefix_append r s⟩

/-- Two conditions may be exchanged if they agree wherever a third one holds. -/
theorem eachAmpersand_congr (h : EachAmpersand good s) (hiff : ∀ t, good t → (fits t ↔ other t)) :
    EachAmpersand fits s ↔ EachAmpersand other s :=
  ⟨fun hfits before after heq => (hiff after (h before after heq)).mp (hfits before after heq),
    fun hother before after heq => (hiff after (h before after heq)).mpr (hother before after heq)⟩

theorem escapeAmpersandsIn_append (h : '&' ∉ r) (s : List Char) :
    escapeAmpersandsIn (r ++ s) = r ++ escapeAmpersandsIn s := by
  induction r with
  | nil => rfl
  | cons c rest ih =>
    rw [List.mem_cons, not_or] at h
    rw [List.cons_append, escapeAmpersandsIn, if_neg fun hc => h.1 hc.1.symm, ih h.2]
    rfl

/-- A reference is passed over whole. -/
theorem escapeAmpersandsIn_reference (h : IsReference r) (s : List Char) :
    escapeAmpersandsIn ('&' :: (r ++ s)) = '&' :: (r ++ escapeAmpersandsIn s) := by
  have hstarts : startsReference (r ++ s) = true := startsReference_iff.mpr ⟨r, h, s, rfl⟩
  rw [escapeAmpersandsIn, if_neg (by simp [hstarts]), escapeAmpersandsIn_append h.ampersand_notMem]

theorem escapeAmpersandsIn_bare (h : ¬ BeginsWith IsReference s) :
    escapeAmpersandsIn ('&' :: s) = '&' :: ("amp;".toList ++ escapeAmpersandsIn s) := by
  rw [← startsReference_iff, Bool.not_eq_true] at h
  rw [escapeAmpersandsIn, if_pos ⟨rfl, h⟩]
  rfl

theorem escapeAmpersandsIn_other (h : c ≠ '&') (s : List Char) :
    escapeAmpersandsIn (c :: s) = c :: escapeAmpersandsIn s := by
  rw [escapeAmpersandsIn, if_neg fun hc => h hc.1]

theorem isReference_amp : IsReference "amp;".toList :=
  isReference_entity (show entity? "amp".toList = some '&' from rfl)

/-- Whatever the text was, there is a reference behind each ampersand afterwards. -/
theorem eachAmpersand_escapeAmpersandsIn (s : List Char) :
    EachAmpersand (BeginsWith IsReference) (escapeAmpersandsIn s) := by
  induction s with
  | nil => exact eachAmpersand_nil
  | cons c rest ih =>
    by_cases hc : c = '&'
    · subst hc
      by_cases hbegins : BeginsWith IsReference rest
      · obtain ⟨r, hr, tail, rfl⟩ := hbegins
        rw [escapeAmpersandsIn_append hr.ampersand_notMem] at ih
        rw [escapeAmpersandsIn_reference hr, eachAmpersand_cons]
        exact ⟨fun _ => ⟨r, hr, List.prefix_append _ _⟩, ih⟩
      · rw [escapeAmpersandsIn_bare hbegins,
          eachAmpersand_reference isReference_amp isReference_amp.ampersand_notMem]
        exact ih
    · rw [escapeAmpersandsIn_other hc, eachAmpersand_cons]
      exact ⟨fun h => absurd h hc, ih⟩

/-- Nothing is escaped just if there is a reference behind each ampersand. -/
theorem escapeAmpersandsIn_eq_self_iff :
    escapeAmpersandsIn s = s ↔ EachAmpersand (BeginsWith IsReference) s := by
  constructor
  · intro h
    rw [← h]
    exact eachAmpersand_escapeAmpersandsIn s
  · intro h
    induction s with
    | nil => rfl
    | cons c rest ih =>
      obtain ⟨hfirst, hrest⟩ := eachAmpersand_cons.mp h
      have hkept : ¬ (c = '&' ∧ startsReference rest = false) := by
        rintro ⟨hc, hbare⟩
        rw [startsReference_iff.mpr (hfirst hc)] at hbare
        cases hbare
      rw [escapeAmpersandsIn, if_neg hkept, ih hrest]

end Ampersands

/-- What is put behind a character of a text: `amp;` behind an ampersand that begins no reference. -/
def insertion (s : List Char) (i : Nat) : List Char :=
  if s[i]? = some '&' ∧ ¬ BeginsWith IsReference (s.drop (i + 1)) then "amp;".toList else []

/-- The text as it was, with the insertion of each place. -/
theorem escapeAmpersandsIn_eq_flatMap (before s : List Char) :
    escapeAmpersandsIn s =
      (s.zipIdx before.length).flatMap fun p => p.1 :: insertion (before ++ s) p.2 := by
  induction s generalizing before with
  | nil => rfl
  | cons c rest ih =>
    have hplace : insertion (before ++ c :: rest) before.length =
        if c = '&' ∧ ¬ BeginsWith IsReference rest then "amp;".toList else [] := by
      simp [insertion]
    have hrest := ih (before ++ [c])
    rw [List.append_assoc, List.singleton_append, List.length_append, List.length_singleton] at hrest
    rw [List.zipIdx_cons, List.flatMap_cons, ← hrest, hplace]
    simp only [escapeAmpersandsIn, ← startsReference_iff, Bool.not_eq_true]
    split
    · rename_i hc
      rw [hc.1]
      rfl
    · rfl

section Texts

variable {s : String}

theorem toList_escapeAmpersands (s : String) :
    (escapeAmpersands s).toList = escapeAmpersandsIn s.toList :=
  String.toList_ofList

theorem escapeAmpersands_eq_self_iff :
    escapeAmpersands s = s ↔ EachAmpersand (BeginsWith IsReference) s.toList := by
  rw [← String.toList_inj, toList_escapeAmpersands, escapeAmpersandsIn_eq_self_iff]

/-- An ampersand is escaped just if no reference follows it in the text, and all else stays. In the
result a reference follows each ampersand, so that nothing is escaped again. -/
theorem escapeAmpersands_inserts (s : String) :
    (escapeAmpersands s).toList =
        (s.toList.zipIdx.flatMap fun p => p.1 :: insertion s.toList p.2) ∧
      EachAmpersand (BeginsWith IsReference) (escapeAmpersands s).toList ∧
      escapeAmpersands (escapeAmpersands s) = escapeAmpersands s := by
  have heach : EachAmpersand (BeginsWith IsReference) (escapeAmpersands s).toList := by
    rw [toList_escapeAmpersands]
    exact eachAmpersand_escapeAmpersandsIn s.toList
  refine ⟨?_, heach, escapeAmpersands_eq_self_iff.mpr heach⟩
  rw [toList_escapeAmpersands]
  exact escapeAmpersandsIn_eq_flatMap [] s.toList

/-- An ampersand in front of another, of a reference, and of a name that no semicolon ends. -/
example : escapeAmpersands "&&lt;&nbsp&R&D;" = "&amp;&lt;&amp;nbsp&amp;R&amp;D;" := by decide

end Texts

/-- Whether a reference by number that stands at the front has two to six characters between the number
sign and the semicolon. -/
def NumberFits (s : List Char) : Prop :=
  ∀ number, IsValidReference ('#' :: (number ++ [';'])) → '#' :: (number ++ [';']) <+: s →
    2 ≤ number.length ∧ number.length ≤ 6

section Valid

variable {radix : Radix} {digits number r s : List Char} {n : Nat}

/-- The digits of either base are among the characters that a number may have. -/
theorem isNumberChar_of_isNumber (h : IsNumber radix digits n) :
    ∀ c ∈ digits, isNumberChar c = true := by
  have hdigit : ∀ v < 16, isNumberChar (Nat.digitChar v) = true ∧
      isNumberChar (Nat.digitChar v).toUpper = true := by
    decide
  induction h with
  | nil => exact List.forall_mem_nil _
  | @digit before n v c h lt spelled ih =>
    have hbase : radix.base ≤ 16 := by cases radix <;> decide
    rw [List.forall_mem_append]
    refine ⟨ih, List.forall_mem_singleton.mpr ?_⟩
    rcases spelled with rfl | rfl
    · exact (hdigit v (by omega)).1
    · exact (hdigit v (by omega)).2

/-- What follows the number sign of a valid reference, with the mark of the radix, are characters of
numbers. -/
theorem IsValidReference.forall_isNumberChar (h : IsValidReference r)
    (hr : r = '#' :: (number ++ [';'])) : ∀ c ∈ number, isNumberChar c = true := by
  cases h with
  | @entity name c known =>
    cases name with
    | nil => cases hr
    | cons d name =>
      have hd := (isEntityName_of_entity? known).2 d List.mem_cons_self
      rw [(List.cons.inj hr).1] at hd
      cases hd
  | @character radix digits c nonempty value =>
    have hdigits := isNumberChar_of_isNumber value
    cases radix with
    | decimal =>
      have hnumber : digits = number := List.append_cancel_right (List.cons.inj hr).2
      exact hnumber ▸ hdigits
    | hexadecimal =>
      have hnumber : 'x' :: digits = number := List.append_cancel_right (List.cons.inj hr).2
      rw [← hnumber, List.forall_mem_cons]
      exact ⟨by decide, hdigits⟩

/-- A valid reference has the form of one unless its number has too few or too many characters. -/
theorem beginsWith_isReference_iff (h : BeginsWith IsValidReference s) :
    BeginsWith IsReference s ↔ NumberFits s := by
  constructor
  · rintro hbegins number hvalid ⟨rest, rfl⟩
    have hstarts := startsReference_iff.mpr hbegins
    rw [List.cons_append, List.append_assoc, List.singleton_append,
      startsReference_number (hvalid.forall_isNumberChar rfl)] at hstarts
    exact isNumberName_iff.mp hstarts
  · intro hfits
    obtain ⟨r, hr, hprefix⟩ := h
    obtain ⟨number, rfl⟩ | ⟨name, c, hname, rfl⟩ : (∃ number, r = '#' :: (number ++ [';'])) ∨
        ∃ name c, entity? name = some c ∧ r = name ++ [';'] := by
      cases hr with
      | entity known => exact .inr ⟨_, _, known, rfl⟩
      | @character radix digits => cases radix <;> exact .inl ⟨_, rfl⟩
    · obtain ⟨htwo, hsix⟩ := hfits number hr hprefix
      exact ⟨_, .numbered htwo hsix (hr.forall_isNumberChar rfl), hprefix⟩
    · exact ⟨_, isReference_entity hname, hprefix⟩

/-- A text of valid references is left alone just if every number in them has two to six characters,
the mark of its radix counted. -/
theorem escapeAmpersands_eq_self_iff_numberFits {s : String}
    (h : EachAmpersand (BeginsWith IsValidReference) s.toList) :
    escapeAmpersands s = s ↔ EachAmpersand NumberFits s.toList := by
  rw [escapeAmpersands_eq_self_iff]
  exact eachAmpersand_congr h fun _ => beginsWith_isReference_iff

/-- Numbers of any length are references where their forms are not counted. -/
theorem eachAmpersand_number (radix : Radix) (digits : List Char) (c : Char)
    (hdigits : natural? radix digits = some c.toNat) (s : List Char) :
    EachAmpersand (BeginsWith IsValidReference) ('&' :: (radixMark radix ++ digits ++ [';'] ++ s)) ↔
      EachAmpersand (BeginsWith IsValidReference) s := by
  obtain ⟨hne, hnumber⟩ := natural?_eq_some_iff.mp hdigits
  have happend : '&' ∉ radixMark radix ++ digits ++ [';'] := by
    have hmark : '&' ∉ radixMark radix := by cases radix <;> decide
    have hrest := mt (isNumberChar_of_isNumber hnumber '&') (by decide)
    simp [hmark, hrest]
  exact eachAmpersand_reference (.character hne hnumber) happend

theorem escapeAmpersands_eq_self_iff_numberFits_name_and_dash :
    EachAmpersand (BeginsWith IsValidReference) "Q&amp;A&#x2014;".toList ∧
      escapeAmpersands "Q&amp;A&#x2014;" = "Q&amp;A&#x2014;" ∧
        EachAmpersand NumberFits "Q&amp;A&#x2014;".toList := by
  have hamp : IsValidReference "amp;".toList := .entity (show entity? "amp".toList = some '&' from rfl)
  have hdash : EachAmpersand (BeginsWith IsValidReference) "&#x2014;".toList :=
    (eachAmpersand_number .hexadecimal "2014".toList '—' (by decide) []).mpr eachAmpersand_nil
  have hname : EachAmpersand (BeginsWith IsValidReference) "&amp;A&#x2014;".toList :=
    (eachAmpersand_reference hamp (by decide)).mpr
      ((eachAmpersand_append (r := ['A']) (by decide)).mpr hdash)
  have h : EachAmpersand (BeginsWith IsValidReference) "Q&amp;A&#x2014;".toList :=
    (eachAmpersand_append (r := ['Q']) (by decide)).mpr hname
  have hkept : escapeAmpersands "Q&amp;A&#x2014;" = "Q&amp;A&#x2014;" := by decide
  exact ⟨h, hkept, (escapeAmpersands_eq_self_iff_numberFits h).mp hkept⟩

/-- The number of a tabulator in one digit, and the last number there is in seven. -/
theorem escapeAmpersands_ne_self_of_digits :
    (EachAmpersand (BeginsWith IsValidReference) "&#9;".toList ∧ escapeAmpersands "&#9;" ≠ "&#9;") ∧
      EachAmpersand (BeginsWith IsValidReference) "&#1114111;".toList ∧
        escapeAmpersands "&#1114111;" ≠ "&#1114111;" := by
  have hshort : EachAmpersand (BeginsWith IsValidReference) "&#9;".toList :=
    (eachAmpersand_number .decimal "9".toList '\t' (by decide) []).mpr eachAmpersand_nil
  have hlong : EachAmpersand (BeginsWith IsValidReference) "&#1114111;".toList :=
    (eachAmpersand_number .decimal "1114111".toList (Char.ofNat 0x10FFFF) (by decide) []).mpr
      eachAmpersand_nil
  exact ⟨⟨hshort, by decide⟩, hlong, by decide⟩

end Valid

end ComputedField.Format
