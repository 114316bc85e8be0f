import Mathlib.Data.List.TakeWhile
import ComputedField.Markup.Attributes

/-!
# Written tags

Tags as they are written: a name, and attributes with their values escaped and in double quotes. What
is read from the inside of such a tag is the name and the attributes.
-/

namespace ComputedField.Markup

/-- The characters that a name may have: no blanks of a tag, and none that markup gives a meaning. -/
def isNameChar (c : Char) : Bool := !isSpace c && !"<>/='\"!?&".toList.contains c

def IsName (name : String) : Prop := name.toList ≠ [] ∧ ∀ c ∈ name.toList, isNameChar c = true

instance (name : String) : Decidable (IsName name) :=
  decidable_of_iff (name.toList ≠ [] ∧ name.toList.all isNameChar = true) (by simp [IsName])

def Attribute.written (a : Attribute) : List Char :=
  ' ' :: a.name.toList ++ '=' :: '"' :: (escape a.value).toList ++ ['"']

/-- An attribute as it stands in a tag, given what stands between its quotes. -/
def spelledAttribute (name : String) (raw : List Char) : List Char :=
  ' ' :: name.toList ++ '=' :: '"' :: raw ++ ['"']

theorem Attribute.written_eq (a : Attribute) :
    a.written = spelledAttribute a.name (a.value.toList.flatMap escapeChar) := by
  rw [written, escape, String.toList_ofList]
  rfl

def tagText (name : String) (attributes : List Attribute) : List Char :=
  name.toList ++ attributes.flatMap Attribute.written

/-- Attributes that a tag can have: their names are names, and no two are the same. -/
structure WellNamed (attributes : List Attribute) : Prop where
  names : ∀ a ∈ attributes, IsName a.name
  distinct : (attributes.map (·.name)).Nodup

theorem wellNamed_nil : WellNamed [] := ⟨by simp, by simp⟩

section Names

variable {name : String}

theorem isNameChar_ne {c d : Char} (hc : isNameChar c = true) (hd : isNameChar d = false) : c ≠ d := by
  intro h
  rw [h, hd] at hc
  cases hc

theorem isSpace_of_isNameChar {c : Char} (h : isNameChar c = true) : isSpace c = false := by
  simp only [isNameChar, Bool.and_eq_true, Bool.not_eq_true'] at h
  exact h.1

theorem isQuote_of_isNameChar {c : Char} (h : isNameChar c = true) : isQuote c = false := by
  simp [isQuote, isNameChar_ne h (show isNameChar '\'' = false by decide),
    isNameChar_ne h (show isNameChar '"' = false by decide)]

theorem endsName_of_isNameChar {c : Char} (h : isNameChar c = true) : endsName c = false := by
  simp [endsName, isNameChar_ne h (show isNameChar '=' = false by decide),
    isSpace_of_isNameChar h]

theorem IsName.exists_cons (h : IsName name) : ∃ c rest, name.toList = c :: rest := by
  cases hl : name.toList with
  | nil => exact absurd hl h.1
  | cons c rest => exact ⟨c, rest, rfl⟩

end Names

section Escaped

/-- Escaping leaves no quote that could end an attribute value. -/
theorem quote_notMem_escaped (s : List Char) : '"' ∉ s.flatMap escapeChar := by
  intro h
  obtain ⟨c, -, hc⟩ := List.mem_flatMap.mp h
  unfold escapeChar at hc
  split at hc
  case h_6 hlt hgt hamp hapos hquot =>
    rw [List.mem_singleton] at hc
    exact hquot hc.symm
  all_goals simp at hc

theorem unescapeAfter_escapeChar (c : Char) (s : List Char) :
    unescapeAfter none (escapeChar c ++ s) = (unescapeAfter none s).map (c :: ·) := by
  unfold escapeChar
  split
  case h_6 hlt hgt hamp hapos hquot =>
    rw [List.singleton_append, unescapeAfter, if_neg hamp]
  all_goals simp [unescapeAfter, Place.resolve?, entity?]

/-- What is escaped is read back as it was. -/
theorem unescape?_escaped (s : List Char) : unescape? (s.flatMap escapeChar) = some s := by
  unfold unescape?
  induction s with
  | nil => rfl
  | cons c rest ih => rw [List.flatMap_cons, unescapeAfter_escapeChar, ih, Option.map_some]

end Escaped

theorem takeWhile_append_cons {p : Char → Bool} {u v : List Char} {c : Char}
    (hu : ∀ d ∈ u, p d = true) (hc : p c = false) : (u ++ c :: v).takeWhile p = u := by
  rw [List.takeWhile_append_of_pos hu, List.takeWhile_cons_of_neg (by simp [hc]), List.append_nil]

theorem dropWhile_append_cons {p : Char → Bool} {u v : List Char} {c : Char}
    (hu : ∀ d ∈ u, p d = true) (hc : p c = false) : (u ++ c :: v).dropWhile p = c :: v := by
  rw [List.dropWhile_append_of_pos hu, List.dropWhile_cons_of_neg (by simp [hc])]

/-- A value ends with the next quote. -/
theorem quotedValue_raw {raw : List Char} (h : '"' ∉ raw) (s : List Char) :
    quotedValue ('"' :: (raw ++ '"' :: s)) = .ok (raw, s) := by
  have hquote : ∀ d ∈ raw, (d != '"') = true := by
    intro d hd
    simp only [bne_iff_ne, ne_eq]
    rintro rfl
    exact h hd
  have hq : isSpace '"' = false := by decide
  simp only [quotedValue, List.dropWhile_cons, hq, Bool.false_eq_true, if_false,
    dropWhile_append_cons hquote (show ('"' != '"') = false by decide),
    takeWhile_append_cons hquote (show ('"' != '"') = false by decide)]
  rfl

/-- One turn of reading attributes, from the parts that it finds. -/
theorem readAttributes_value {seen : List String} {s rest text raw after : List Char} {c : Char}
    (hs : s.dropWhile isSpace = c :: rest)
    (hr : (rest.dropWhile (!endsName ·)).dropWhile isSpace = '=' :: text)
    (hseen : String.ofList (c :: rest.takeWhile (!endsName ·)) ∉ seen)
    (hv : quotedValue text = .ok (raw, after)) :
    readAttributes seen s =
      match unescape? raw with
      | none => .error .attributeValue
      | some value =>
        (readAttributes (String.ofList (c :: rest.takeWhile (!endsName ·)) :: seen) after).map
          (⟨String.ofList (c :: rest.takeWhile (!endsName ·)), String.ofList value⟩ :: ·) := by
  rw [readAttributes]
  split
  · rename_i hnil
    simp [hs] at hnil
  · rename_i d tail hcons
    rw [hs] at hcons
    cases hcons
    split
    · rename_i text' htext
      rw [hr] at htext
      cases htext
      rw [if_neg hseen]
      split
      · rename_i fault hfault
        simp [hv] at hfault
      · rename_i raw' after' hok
        rw [hv] at hok
        cases hok
        rfl
    · rename_i hother
      exact absurd hr (hother text)

/-- An attribute is read if what stands between its quotes can be read. -/
theorem readAttributes_spelled {seen : List String} {name : String} {raw : List Char}
    (hn : IsName name) (hseen : name ∉ seen) (hraw : '"' ∉ raw) (s : List Char) :
    readAttributes seen (spelledAttribute name raw ++ s) =
      match unescape? raw with
      | none => .error .attributeValue
      | some value =>
        (readAttributes (name :: seen) s).map (⟨name, String.ofList value⟩ :: ·) := by
  obtain ⟨c, rest, hname⟩ := hn.exists_cons
  have hchars : ∀ d ∈ c :: rest, isNameChar d = true := by
    intro d hd
    exact hn.2 d (by rwa [hname])
  have hrest : ∀ d ∈ rest, (!endsName d) = true := by
    intro d hd
    simp [endsName_of_isNameChar (hchars d (List.mem_cons_of_mem c hd))]
  have hends : (!endsName '=') = false := by decide
  have hspelled : String.ofList (c :: rest) = name := by rw [← hname, String.ofList_toList]
  have hs : (spelledAttribute name raw ++ s).dropWhile isSpace =
      c :: (rest ++ '=' :: '"' :: (raw ++ '"' :: s)) := by
    have hc := isSpace_of_isNameChar (hchars c List.mem_cons_self)
    simp [spelledAttribute, hname, hc, show isSpace ' ' = true by decide]
  have hr := dropWhile_append_cons (p := (!endsName ·)) (v := '"' :: (raw ++ '"' :: s)) hrest hends
  have ht := takeWhile_append_cons (p := (!endsName ·)) (v := '"' :: (raw ++ '"' :: s)) hrest hends
  rw [readAttributes_value hs _ _ (quotedValue_raw hraw s), ht, hspelled]
  · rw [hr]
    rfl
  · rwa [ht, hspelled]

theorem readAttributes_written {seen : List String} {a : Attribute} {s : List Char}
    (hn : IsName a.name) (hseen : a.name ∉ seen) :
    readAttributes seen (a.written ++ s) = (readAttributes (a.name :: seen) s).map (a :: ·) := by
  rw [a.written_eq, readAttributes_spelled hn hseen (quote_notMem_escaped a.value.toList),
    unescape?_escaped]
  simp only [String.ofList_toList]

/-- Attributes that are written are read back, each with its value. -/
theorem readAttributes_flatMap_written {seen : List String} {attributes : List Attribute}
    (h : WellNamed attributes) (hseen : ∀ a ∈ attributes, a.name ∉ seen) :
    readAttributes seen (attributes.flatMap Attribute.written) = .ok attributes := by
  induction attributes generalizing seen with
  | nil =>
    rw [readAttributes]
    rfl
  | cons a rest ih =>
    have hd := h.distinct
    rw [List.map_cons, List.nodup_cons] at hd
    rw [List.flatMap_cons, readAttributes_written (h.names a (by simp)) (hseen a (by simp)), ih]
    · rfl
    · exact ⟨fun b hb => h.names b (by simp [hb]), hd.2⟩
    · intro b hb hmem
      rcases List.mem_cons.mp hmem with he | hmem
      · exact hd.1 (List.mem_map.mpr ⟨b, hb, he⟩)
      · exact hseen b (by simp [hb]) hmem

section Scanning

variable {name : String} {attributes : List Attribute}

/-- A tag does not end in what has neither quotes nor its closing mark. -/
theorem scanTag_plain {u v tag after : List Char} (hu : ∀ c ∈ u, c ≠ '>' ∧ isQuote c = false)
    (hv : scanTag none v = .ok (tag, after)) : scanTag none (u ++ v) = .ok (u ++ tag, after) := by
  induction u with
  | nil => exact hv
  | cons c rest ih =>
    have hc := hu c (by simp)
    have hrest := ih fun d hd => hu d (by simp [hd])
    rw [List.cons_append, scanTag.eq_3, if_neg (fun h => hc.1 h.1)]
    simp only [nextQuote, hc.2, Bool.false_eq_true, if_false, hrest]
    rfl

theorem scanTag_quoted {u v tag after : List Char} (hu : '"' ∉ u)
    (hv : scanTag none v = .ok (tag, after)) :
    scanTag (some '"') (u ++ '"' :: v) = .ok (u ++ '"' :: tag, after) := by
  induction u with
  | nil =>
    rw [List.nil_append, scanTag.eq_3, if_neg (by decide)]
    simp only [nextQuote, if_true, hv]
    rfl
  | cons c rest ih =>
    have hc : c ≠ '"' := by
      intro h
      exact hu (by simp [h])
    rw [List.cons_append, scanTag.eq_3, if_neg (fun h => by simp at h)]
    simp only [nextQuote, if_neg hc, ih fun h => hu (by simp [h])]
    rfl

theorem scanTag_name {v tag after : List Char} (hn : IsName name)
    (hv : scanTag none v = .ok (tag, after)) :
    scanTag none (name.toList ++ v) = .ok (name.toList ++ tag, after) := by
  apply scanTag_plain _ hv
  intro c hc
  exact ⟨isNameChar_ne (hn.2 c hc) (by decide), isQuote_of_isNameChar (hn.2 c hc)⟩

theorem scanTag_spelled {raw v tag after : List Char} (hn : IsName name) (hraw : '"' ∉ raw)
    (hv : scanTag none v = .ok (tag, after)) :
    scanTag none (spelledAttribute name raw ++ v) = .ok (spelledAttribute name raw ++ tag, after) := by
  have hquote : scanTag none ('"' :: (raw ++ '"' :: v)) = .ok ('"' :: (raw ++ '"' :: tag), after) := by
    rw [scanTag.eq_3, if_neg (by decide)]
    simp only [nextQuote, show isQuote '"' = true by decide, if_true, scanTag_quoted hraw hv]
    rfl
  have hequals := scanTag_plain (u := ['=']) (by simp [isQuote]) hquote
  have hname := scanTag_name hn hequals
  have hspace := scanTag_plain (u := [' ']) (by simp [isQuote]) hname
  simpa [spelledAttribute] using hspace

theorem scanTag_written {a : Attribute} {v tag after : List Char} (hn : IsName a.name)
    (hv : scanTag none v = .ok (tag, after)) :
    scanTag none (a.written ++ v) = .ok (a.written ++ tag, after) := by
  rw [a.written_eq]
  exact scanTag_spelled hn (quote_notMem_escaped a.value.toList) hv

/-- A written start tag ends at the `>` behind its attributes. -/
theorem scanTag_tagText (hn : IsName name) (ha : WellNamed attributes) (s : List Char) :
    scanTag none (tagText name attributes ++ '>' :: s) = .ok (tagText name attributes, s) := by
  have hs : scanTag none ('>' :: s) = .ok ([], s) := by
    rw [scanTag.eq_3, if_pos ⟨rfl, rfl⟩]
  have hattributes : scanTag none (attributes.flatMap Attribute.written ++ '>' :: s) =
      .ok (attributes.flatMap Attribute.written, s) := by
    have names := ha.names
    clear ha
    induction attributes with
    | nil => exact hs
    | cons a rest ih =>
      rw [List.flatMap_cons, List.append_assoc]
      exact scanTag_written (names a (by simp)) (ih fun b hb => names b (by simp [hb]))
  rw [tagText, List.append_assoc]
  exact scanTag_name hn hattributes

/-- What is written is never taken for a tag that closes itself. -/
theorem openingTag_tagText (hn : IsName name) (attributes : List Attribute) :
    openingTag (tagText name attributes) = .startTag (tagText name attributes) := by
  have hlast : (tagText name attributes).getLast? ≠ some '/' := by
    rcases List.eq_nil_or_concat attributes with rfl | ⟨before, a, rfl⟩
    · intro h
      have hmem : '/' ∈ name.toList := List.mem_of_getLast? (by simpa [tagText] using h)
      exact isNameChar_ne (hn.2 _ hmem) (by decide) rfl
    · simp [tagText, Attribute.written, List.getLast?_cons]
  rw [openingTag, if_neg hlast]

theorem IsName.notSpace (hn : IsName name) : ∀ c ∈ name.toList, (!isSpace c) = true := by
  intro c hc
  rw [isSpace_of_isNameChar (hn.2 c hc)]
  rfl

theorem tagName_tagText (hn : IsName name) : tagName (tagText name attributes) = name.toList := by
  cases attributes with
  | nil =>
    rw [tagText, List.flatMap_nil, List.append_nil, tagName, List.takeWhile_eq_self_iff.mpr hn.notSpace]
  | cons a rest => exact takeWhile_append_cons hn.notSpace (by decide)

theorem attributeText_tagText (hn : IsName name) :
    attributeText (tagText name attributes) = attributes.flatMap Attribute.written := by
  cases attributes with
  | nil =>
    rw [tagText, List.flatMap_nil, List.append_nil, attributeText,
      List.dropWhile_eq_nil_iff.mpr hn.notSpace]
  | cons a rest => exact dropWhile_append_cons hn.notSpace (by decide)

/-- The attributes of a tag are read back from it. -/
theorem attributesOf_tagText (hn : IsName name) (ha : WellNamed attributes) :
    attributesOf (tagText name attributes) = .ok attributes := by
  rw [attributesOf, attributeText_tagText hn]
  exact readAttributes_flatMap_written ha (by simp)

theorem closingTag_name (hn : IsName name) : closingTag name.toList = .endTag name.toList := by
  obtain ⟨c, rest, hc⟩ := hn.exists_cons
  have hkept : name.toList.reverse.dropWhile isSpace = name.toList.reverse := by
    apply List.dropWhile_eq_self_iff.mpr
    intro h
    have hmem : name.toList.reverse[0] ∈ name.toList :=
      List.mem_reverse.mp (List.getElem_mem h)
    rw [isSpace_of_isNameChar (hn.2 _ hmem)]
    decide
  rw [closingTag, hkept]
  split
  · rename_i hnil
    simp [hc] at hnil
  · rename_i last before hcons
    rw [← hcons, List.reverse_reverse]

/-- What begins with a name is no other markup than a tag. -/
theorem scanMarkup_name (hn : IsName name) (s : List Char) : scanMarkup (name.toList ++ s) =
    (scanTag none (name.toList ++ s)).map fun (tag, after) => (openingTag tag, after) := by
  obtain ⟨c, rest, hc⟩ := hn.exists_cons
  have hchar : isNameChar c = true := hn.2 c (by simp [hc])
  rw [hc, List.cons_append]
  unfold scanMarkup
  split
  case h_4 => rfl
  all_goals
    rename_i heq
    cases heq
    exact absurd hchar (by decide)

/-- A start tag that is written is found and told from all other markup. -/
theorem scanMarkup_startTag (hn : IsName name) (ha : WellNamed attributes) (s : List Char) :
    scanMarkup (tagText name attributes ++ '>' :: s) =
      .ok (.startTag (tagText name attributes), s) := by
  have hscan := scanTag_tagText hn ha s
  rw [← openingTag_tagText hn attributes]
  rw [tagText, List.append_assoc] at hscan ⊢
  rw [scanMarkup_name hn, hscan]
  rfl

theorem scanMarkup_endTag (hn : IsName name) (s : List Char) :
    scanMarkup ('/' :: (name.toList ++ '>' :: s)) = .ok (.endTag name.toList, s) := by
  have hscan := scanTag_tagText hn wellNamed_nil s
  rw [tagText, List.flatMap_nil, List.append_nil] at hscan
  rw [scanMarkup, hscan, ← closingTag_name hn]
  rfl

end Scanning

end ComputedField.Markup
