import ComputedField.Proofs.Markup.WrittenElements

/-!
# Character data in all its spellings

Text can be written escaped, as a section of character data, or by references to the numbers of its
characters, and comments and instructions may stand anywhere in between. Whatever the mixture, it is
read as one run of characters: an element around it holds their text, or nothing if all of them are
blank.
-/

namespace ComputedField.Markup

open Text Decimal

/-- The digits, of either case, stand for the number. -/
inductive IsNumber (radix : Radix) : List Char → Nat → Prop where
  | nil : IsNumber radix [] 0
  | digit {s : List Char} {n v : Nat} {c : Char} (before : IsNumber radix s n) (lt : v < radix.base)
      (spelled : c = Nat.digitChar v ∨ c = (Nat.digitChar v).toUpper) :
      IsNumber radix (s ++ [c]) (radix.base * n + v)

inductive CharacterData where
  | escaped (text : String)
  | verbatim (text : String)
  | reference (radix : Radix) (digits : List Char) (c : Char)
  | comment (text : String)
  | instruction (text : String)

def radixMark : Radix → List Char
  | .decimal => ['#']
  | .hexadecimal => ['#', 'x']

def marked (opening text closing : String) : List Char :=
  opening.toList ++ text.toList ++ closing.toList

namespace CharacterData

def written : CharacterData → List Char
  | .escaped text => (escape text).toList
  | .verbatim text => marked "<![CDATA[" text "]]>"
  | .reference radix digits _ => '&' :: (radixMark radix ++ digits ++ [';'])
  | .comment text => marked "<!--" text "-->"
  | .instruction text => marked "<?x " text "?>"

def characters : CharacterData → List Char
  | .escaped text | .verbatim text => text.toList
  | .reference _ _ c => [c]
  | .comment _ | .instruction _ => []

/-- Whether a piece ends where it is meant to end and a reference is one to its character. -/
def WellWritten : CharacterData → Prop
  | .escaped _ => True
  | .verbatim text => ¬ "]]>".toList <:+: text.toList
  | .reference radix digits c => digits ≠ [] ∧ IsNumber radix digits c.toNat
  | .comment text => ¬ "--".toList <:+: text.toList ∧ text.toList.getLast? ≠ some '-'
  | .instruction text => ¬ "?>".toList <:+: text.toList

def writtenAll (pieces : List CharacterData) : String := String.ofList (pieces.flatMap written)

def text (pieces : List CharacterData) : String := String.ofList (pieces.flatMap characters)

end CharacterData

section Numbers

variable {radix : Radix}

theorem digitsAfter_append_singleton (radix : Radix) (n : Nat) (s : List Char) (c : Char) :
    digitsAfter radix n (s ++ [c]) =
      (digitsAfter radix n s).bind fun k => (radix.digit? c).map (radix.base * k + ·) := by
  induction s generalizing n with
  | nil =>
    simp only [List.nil_append, digitsAfter]
    cases radix.digit? c <;> rfl
  | cons d rest ih =>
    simp only [List.cons_append, digitsAfter, ih]
    cases radix.digit? d <;> rfl

/-- A digit is read in either case. -/
theorem digit?_of_spelled {v : Nat} {c : Char} (lt : v < radix.base)
    (spelled : c = Nat.digitChar v ∨ c = (Nat.digitChar v).toUpper) : radix.digit? c = some v := by
  have decimal : ∀ v < 10, decimalDigit? (Nat.digitChar v) = some v ∧
      decimalDigit? (Nat.digitChar v).toUpper = some v := by decide
  have hexadecimal : ∀ v < 16, hexDigit? (Nat.digitChar v) = some v ∧
      hexDigit? (Nat.digitChar v).toUpper = some v := by decide
  cases radix with
  | decimal =>
    rcases spelled with rfl | rfl
    · exact (decimal v lt).1
    · exact (decimal v lt).2
  | hexadecimal =>
    rcases spelled with rfl | rfl
    · exact (hexadecimal v lt).1
    · exact (hexadecimal v lt).2

theorem IsNumber.digitsAfter_eq {s : List Char} {n : Nat} (h : IsNumber radix s n) :
    digitsAfter radix 0 s = some n := by
  induction h with
  | nil => rfl
  | digit before lt spelled ih =>
    rw [digitsAfter_append_singleton, ih, Option.bind_some, digit?_of_spelled lt spelled]
    rfl

/-- In text, a number may have zeros in front, or be zero. -/
theorem IsNumber.number?_eq {s : List Char} {n : Nat} (h : IsNumber radix s n) (nonempty : s ≠ []) :
    Place.text.number? radix s = some n := by
  have hs := h.digitsAfter_eq
  simp only [Place.number?]
  unfold signedNatural?
  split
  · rename_i rest
    -- A plus sign is no digit.
    have hplus : radix.digit? '+' = none := by cases radix <;> decide
    rw [digitsAfter, hplus] at hs
    cases hs
  · rw [natural?, if_neg (by simpa using nonempty)]
    exact hs

/-- A reference by number stands for the character with that number. -/
theorem resolveInText_number {digits : List Char} {c : Char} (nonempty : digits ≠ [])
    (h : IsNumber radix digits c.toNat) :
    resolveInText (radixMark radix ++ digits) = .ok c := by
  have hcode : (Place.text.number? radix digits).bind (fun n =>
      if n.isValidChar ∧ (n = 0 → Place.text = .text) then some (Char.ofNat n) else none) = some c := by
    rw [h.number?_eq nonempty, Option.bind_some, if_pos ⟨c.valid, fun _ => rfl⟩, Char.ofNat_toNat]
  have hresolve : Place.text.resolve? (radixMark radix ++ digits) = some c := by
    cases radix with
    | hexadecimal => exact hcode
    | decimal =>
      change Place.text.character? digits = some c
      unfold Place.character?
      split
      · -- An `x` is no decimal digit.
        have hs := h.digitsAfter_eq
        have hletter : Radix.decimal.digit? 'x' = none := by decide
        rw [digitsAfter, hletter] at hs
        cases hs
      · exact hcode
  rw [resolveInText, hresolve]

end Numbers

section Endings

variable {a b : Char} {n : Nat} {s t : List Char}

/-- A mark that ends in a character of its own does not begin inside a text and reach over its end. -/
theorem not_prefix_append (hab : a ≠ b) (nonempty : s ≠ [])
    (h : ¬ List.replicate n a ++ [b] <:+: s) (rest : List Char) :
    ¬ List.replicate n a ++ [b] <+: s ++ (List.replicate n a ++ [b] ++ rest) := by
  intro hp
  by_cases hlen : n < s.length
  · have hle : (List.replicate n a ++ [b]).length ≤ s.length := by
      rw [List.length_append, List.length_replicate]
      exact hlen
    exact h (List.prefix_of_prefix_length_le hp (List.prefix_append ..) hle).isInfix
  · have hpos : 0 < s.length := List.length_pos_iff.mpr nonempty
    have hrun : n - s.length < (List.replicate n a).length := by
      rw [List.length_replicate]
      omega
    have hend : n - s.length < (List.replicate n a ++ [b]).length := by
      rw [List.length_append]
      omega
    have hb := hp.getElem (i := n) (by simp)
    rw [List.getElem_append_right (by simp), List.getElem_append_right (by omega),
      List.getElem_append_left hend, List.getElem_append_left hrun] at hb
    simp at hb
    exact hab hb.symm

/-- A text is cut at the mark behind it, if it does not hold the mark itself. -/
theorem splitOnce?_append (hab : a ≠ b) (h : ¬ List.replicate n a ++ [b] <:+: s)
    (rest : List Char) :
    splitOnce? (List.replicate n a ++ [b]) (s ++ (List.replicate n a ++ [b] ++ rest)) =
      some (s, rest) := by
  induction s with
  | nil =>
    have hp : (List.replicate n a ++ [b]).isPrefixOf (List.replicate n a ++ [b] ++ rest) = true :=
      List.isPrefixOf_iff_prefix.mpr (List.prefix_append ..)
    rw [List.nil_append]
    cases hs : List.replicate n a ++ [b] with
    | nil => simp at hs
    | cons c mark =>
      rw [hs, List.cons_append] at hp
      rw [List.cons_append, splitOnce?, if_pos hp]
      simp
  | cons c s ih =>
    have hp : (List.replicate n a ++ [b]).isPrefixOf
        (c :: (s ++ (List.replicate n a ++ [b] ++ rest))) = false := by
      rw [← Bool.not_eq_true, List.isPrefixOf_iff_prefix]
      exact not_prefix_append hab (by simp) h rest
    rw [List.cons_append, splitOnce?, if_neg (by rw [hp]; decide),
      ih fun hi => h (hi.trans (List.suffix_cons c s).isInfix)]
    rfl

end Endings

section Reading

variable {p : Progress}

theorem scanReference_append {name : List Char} (h : ∀ c ∈ name, c ≠ ';' ∧ c ≠ '&' ∧ c ≠ '<')
    (s : List Char) : scanReference (name ++ ';' :: s) = .ok (name, s) := by
  induction name with
  | nil => rfl
  | cons c rest ih =>
    obtain ⟨hend, hamp, hlt⟩ := h c List.mem_cons_self
    rw [List.cons_append, scanReference, if_neg hend, if_neg (by simp [hamp, hlt]),
      ih fun d hd => h d (List.mem_cons_of_mem c hd)]
    rfl

/-- No digit ends a reference. -/
theorem IsNumber.apart {radix : Radix} {s : List Char} {n : Nat} (h : IsNumber radix s n) :
    ∀ c ∈ s, c ≠ ';' ∧ c ≠ '&' ∧ c ≠ '<' := by
  have digits : ∀ v < 16, ∀ c, (c = Nat.digitChar v ∨ c = (Nat.digitChar v).toUpper) →
      c ≠ ';' ∧ c ≠ '&' ∧ c ≠ '<' := by
    intro v hv
    simp only [forall_eq_or_imp, forall_eq]
    revert v
    decide
  have hbase : radix.base ≤ 16 := by cases radix <;> decide
  induction h with
  | nil => simp
  | digit before lt spelled ih =>
    intro c hc
    rcases List.mem_append.mp hc with hc | hc
    · exact ih c hc
    · rw [List.mem_singleton.mp hc]
      exact digits _ (Nat.lt_of_lt_of_le lt hbase) _ spelled

namespace CharacterData

/-- What stands in a verbatim section is gathered as it is, with any markup in it. -/
theorem resume_verbatim {text : String} (h : ¬ "]]>".toList <:+: text.toList) (s : List Char) :
    p.resume (marked "<![CDATA[" text "]]>" ++ s) = (p.gather text.toList).resume s := by
  have hsplit : splitOnce? "]]>".toList (text.toList ++ ("]]>".toList ++ s)) = some (text.toList, s) :=
    splitOnce?_append (n := 2) (by decide) h s
  have hopen : stripPrefix? "[CDATA[".toList ("[CDATA[".toList ++ (text.toList ++ ("]]>".toList ++ s))) =
      some (text.toList ++ ("]]>".toList ++ s)) := by
    simp [stripPrefix?]
  have hscan : scan '<' ("![CDATA[".toList ++ (text.toList ++ ("]]>".toList ++ s))) =
      .ok (.text text.toList, s) := by
    change scanCharacterData ("[CDATA[".toList ++ (text.toList ++ ("]]>".toList ++ s))) = _
    rw [scanCharacterData, hopen, Option.bind_some, hsplit]
  rw [marked, List.append_assoc, List.append_assoc]
  exact Progress.resume_of_scan hscan

/-- A comment contributes nothing and does not interrupt the text around it. -/
theorem resume_comment {text : String} (h : ¬ "--".toList <:+: text.toList) (s : List Char) :
    p.resume (marked "<!--" text "-->" ++ s) = p.resume s := by
  have hmark : ¬ "-->".toList <:+: text.toList := fun hm =>
    h (List.IsInfix.trans ⟨[], ['>'], rfl⟩ hm)
  have hsplit : splitOnce? "-->".toList (text.toList ++ ("-->".toList ++ s)) = some (text.toList, s) :=
    splitOnce?_append (n := 2) (by decide) hmark s
  have hopen : stripPrefix? "--".toList ("--".toList ++ (text.toList ++ ("-->".toList ++ s))) =
      some (text.toList ++ ("-->".toList ++ s)) := by
    simp [stripPrefix?]
  have hscan : scan '<' ("!--".toList ++ (text.toList ++ ("-->".toList ++ s))) = .ok (.aside, s) := by
    change scanComment ("--".toList ++ (text.toList ++ ("-->".toList ++ s))) = _
    rw [scanComment, hopen, Option.bind_some, hsplit]
  rw [marked, List.append_assoc, List.append_assoc]
  exact Progress.resume_of_scan hscan

theorem resume_instruction {text : String} (h : ¬ "?>".toList <:+: text.toList) (s : List Char) :
    p.resume (marked "<?x " text "?>" ++ s) = p.resume s := by
  have hsplit : splitOnce? "?>".toList (text.toList ++ ("?>".toList ++ s)) = some (text.toList, s) :=
    splitOnce?_append (n := 1) (by decide) h s
  have hwhole : splitOnce? "?>".toList ("?x ".toList ++ (text.toList ++ ("?>".toList ++ s))) =
      some ("?x ".toList ++ text.toList, s) := by
    change (((splitOnce? "?>".toList (text.toList ++ ("?>".toList ++ s))).map _).map _).map _ = _
    rw [hsplit]
    rfl
  have hscan : scan '<' ("?x ".toList ++ (text.toList ++ ("?>".toList ++ s))) = .ok (.aside, s) := by
    change scanInstruction ("?x ".toList ++ (text.toList ++ ("?>".toList ++ s))) = _
    rw [scanInstruction, hwhole]
    rfl
  rw [marked, List.append_assoc, List.append_assoc]
  exact Progress.resume_of_scan hscan

/-- A reference by number contributes its one character. -/
theorem resume_number {radix : Radix} {digits : List Char} {c : Char} (nonempty : digits ≠ [])
    (h : IsNumber radix digits c.toNat) (s : List Char) :
    p.resume ('&' :: (radixMark radix ++ digits ++ ';' :: s)) = (p.gather [c]).resume s := by
  have hmark : ∀ d ∈ radixMark radix, d ≠ ';' ∧ d ≠ '&' ∧ d ≠ '<' := by
    cases radix <;> simp [radixMark]
  refine Progress.resume_reference (scanReference_append (fun d hd => ?_) s)
    (resolveInText_number nonempty h)
  rcases List.mem_append.mp hd with hd | hd
  · exact hmark d hd
  · exact h.apart d hd

/-- However a piece is written, it adds its characters to the run. -/
theorem resume_written {piece : CharacterData} (h : piece.WellWritten) (s : List Char) :
    p.resume (piece.written ++ s) = (p.gather piece.characters).resume s := by
  cases piece with
  | escaped text =>
    rw [written, escape, String.toList_ofList]
    exact Progress.resume_escaped text.toList s
  | verbatim text =>
    exact resume_verbatim h s
  | reference radix digits c =>
    rw [written, List.cons_append, List.append_assoc]
    exact resume_number h.1 h.2 s
  | comment text =>
    rw [written, resume_comment h.1, characters, Progress.gather_nil]
  | instruction text =>
    rw [written, resume_instruction h, characters, Progress.gather_nil]

/-- Pieces one after the other add to one and the same text. -/
theorem resume_all {pieces : List CharacterData} (h : ∀ piece ∈ pieces, piece.WellWritten)
    (s : List Char) :
    p.resume (pieces.flatMap written ++ s) = (p.gather (pieces.flatMap characters)).resume s := by
  induction pieces generalizing p with
  | nil => rw [List.flatMap_nil, List.flatMap_nil, List.nil_append, Progress.gather_nil]
  | cons piece rest ih =>
    rw [List.flatMap_cons, List.flatMap_cons, List.append_assoc,
      resume_written (h piece List.mem_cons_self),
      ih fun other hother => h other (List.mem_cons_of_mem piece hother), Progress.gather_gather]

/-- The nodes that a value makes: one text, or none if it is blank. -/
theorem children_of_valueContent {d : Document} {parent first next : Nat} {ids : List Nat}
    {value : String} (h : NumberedAll d parent first (valueContent value) ids next)
    (inside : next ≤ d.size) :
    if isAllBlank value then ids = []
    else ∃ m, ids = [m] ∧ d.kind? m = some .text ∧ d.stringValue m = value := by
  unfold valueContent at h
  split at h
  · rename_i hblank
    cases h
    rw [if_pos hblank]
  · rename_i hblank
    rw [if_neg hblank]
    cases h with
    | cons head tail =>
      cases tail
      have hvalue := head.stringValue inside
      cases head with
      | text leaf => exact ⟨first, rfl, kind?_of_node leaf, hvalue⟩

/-- Between the tags of an element, pieces are read as one text of all their characters, or as nothing
if these are blank. -/
theorem parse_writtenAll {pieces : List CharacterData} (h : ∀ piece ∈ pieces, piece.WellWritten) :
    ∃ d n, Document.parse ("<a>" ++ writtenAll pieces ++ "</a>") = .ok d ∧
      d.documentElement? = some n ∧ d.kind? n = some .element ∧ d.name n = "a" ∧
      if isAllBlank (text pieces) then d.children n = []
      else ∃ m, d.children n = [m] ∧ d.kind? m = some .text ∧ d.stringValue m = text pieces := by
  have hn : IsName "a" := by decide
  have hreads := Progress.reads_run (p := Progress.start.inside "a" []) rfl
    (by simp [Progress.inside]) (fun s => resume_all h s)
  have hresume := Progress.resume_elementText (Progress.flush_of_nil rfl) (.inr rfl) hn wellNamed_nil
    hreads []
  rw [List.append_nil] at hresume
  have htext : ("<a>" ++ writtenAll pieces ++ "</a>").toList =
      elementText "a" [] (pieces.flatMap written) := by
    simp [elementText, tagText, writtenAll]
  have hread : readContent ("<a>" ++ writtenAll pieces ++ "</a>") =
      .ok [.element "a" [] (valueContent (text pieces))] :=
    readContent_of_resume htext (by decide) hresume
  obtain ⟨hroot, hcontent⟩ := isNumberingOf_ofContent (.element "a" [] (valueContent (text pieces)))
  refine ⟨.ofContent [.element "a" [] (valueContent (text pieces))], 1, ?_, ?_, ?_⟩
  · rw [Document.parse, hread]
    rfl
  · simp [Document.documentElement?, children_of_node hroot]
  · cases hcontent with
    | element node owned inner =>
      rw [name_of_node node, children_of_node node, kind?_of_node node]
      exact ⟨rfl, rfl, children_of_valueContent inner (Nat.le_refl _)⟩

/-- Markup inside a section, a comment and an instruction, with a reference in front of escaped text. -/
theorem parse_writtenAll_mixed :
    (∀ piece ∈ [verbatim "</a>]]&", comment " - <b>", reference .hexadecimal "0E9".toList 'é',
        instruction "?", escaped "<]]>"], piece.WellWritten) ∧
      ∃ d n, Document.parse ("<a>" ++ writtenAll [verbatim "</a>]]&", comment " - <b>",
          reference .hexadecimal "0E9".toList 'é', instruction "?", escaped "<]]>"] ++ "</a>") = .ok d ∧
        d.documentElement? = some n ∧ d.kind? n = some .element ∧ d.name n = "a" ∧
        ∃ m, d.children n = [m] ∧ d.kind? m = some .text ∧ d.stringValue m = "</a>]]&é<]]>" := by
  have hzero : IsNumber .hexadecimal ['0'] 0 := .digit (v := 0) .nil (by decide) (.inl rfl)
  have hletter : IsNumber .hexadecimal ['0', 'E'] 14 :=
    .digit (v := 14) hzero (by decide) (.inr rfl)
  have hnumber : IsNumber .hexadecimal "0E9".toList 'é'.toNat :=
    .digit (v := 9) hletter (by decide) (.inl rfl)
  have hverbatim : (verbatim "</a>]]&").WellWritten :=
    (by decide +kernel : ¬ "]]>".toList <:+: "</a>]]&".toList)
  have hcomment : (comment " - <b>").WellWritten :=
    (by decide +kernel : ¬ "--".toList <:+: " - <b>".toList ∧ " - <b>".toList.getLast? ≠ some '-')
  have hinstruction : (instruction "?").WellWritten :=
    (by decide +kernel : ¬ "?>".toList <:+: "?".toList)
  have h : ∀ piece ∈ [verbatim "</a>]]&", comment " - <b>", reference .hexadecimal "0E9".toList 'é',
      instruction "?", escaped "<]]>"], piece.WellWritten := by
    refine List.forall_mem_cons.mpr ⟨hverbatim, List.forall_mem_cons.mpr ⟨hcomment, ?_⟩⟩
    refine List.forall_mem_cons.mpr ⟨⟨by decide, hnumber⟩, ?_⟩
    exact List.forall_mem_cons.mpr ⟨hinstruction, List.forall_mem_singleton.mpr trivial⟩
  have htext : text [verbatim "</a>]]&", comment " - <b>", reference .hexadecimal "0E9".toList 'é',
      instruction "?", escaped "<]]>"] = "</a>]]&é<]]>" := by decide
  obtain ⟨d, n, hd, hn, hkind, hname, hchild⟩ := parse_writtenAll h
  rw [htext, if_neg (by decide)] at hchild
  exact ⟨h, d, n, hd, hn, hkind, hname, hchild⟩

end CharacterData

end Reading

end ComputedField.Markup
