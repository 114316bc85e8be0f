import ComputedField.Proofs.Filter.Shape
import ComputedField.Proofs.Filter.Spread

/-!
# What the signs of a query govern

A sign stands before the term that it is for. It does where a text has no two connectors with nothing but
blanks between them; where it has, two signs meet, or a sign is left at one of the ends, unless a connector
is taken for a word because the one before it has used up their only gap.
-/

namespace ComputedField.Filter

open Text

/-- Every sign is followed by something else than a sign. -/
structure GovernsTerms (query : List Char) : Prop where
  apart : query.IsChain fun c d => isSign c = true → isSign d = false
  last : ∀ c ∈ query.getLast?, isSign c = false

/-- Two connectors of a text, each a word of its own, with no word between them. -/
def AreNeighbours (s : List Char) (j k : Connector) (between : List Char) : Prop :=
  ∃ before first second after, s = before ++ (first ++ (between ++ (second ++ after))) ∧
    isInAnyCase j.word first = true ∧ isInAnyCase k.word second = true ∧
    (between ≠ [] ∧ ∀ c ∈ between, isWord c = false) ∧
    (∀ c ∈ before.getLast?, isWord c = false) ∧ ∀ c ∈ after.head?, isWord c = false

/-- Connectors follow each other with nothing but blanks between them. -/
def HasAdjacent (s : List Char) : Prop :=
  ∃ j k between, AreNeighbours s j k between ∧ ∀ c ∈ between, isBlank c = true

def HasShared (s : List Char) : Prop := ∃ k c, AreNeighbours s k k [c]

section Text

variable {s : List Char} {gs : List Gap}

/-- No sign is followed by another one or by the end with only blanks between. -/
def governs : Bool → List Char → Bool
  | marked, [] => !marked
  | marked, c :: rest =>
    if isBlank c then governs marked rest else !(isSign c && marked) && governs (isSign c) rest

theorem governs_blank {c : Char} (hc : isBlank c = true) (marked : Bool) (s : List Char) :
    governs marked (c :: s) = governs marked s :=
  if_pos hc

theorem governs_visible {c : Char} (hc : isBlank c = false) (marked : Bool) (s : List Char) :
    governs marked (c :: s) = (!(isSign c && marked) && governs (isSign c) s) :=
  if_neg (Bool.eq_false_iff.mp hc)

/-- The blanks that are removed next to signs did not count. -/
theorem governs_tighten (afterSign marked : Bool) (s : List Char) :
    governs marked (tighten afterSign s) = governs marked s := by
  induction s generalizing afterSign marked with
  | nil => rfl
  | cons c rest ih =>
    rw [tighten]
    split
    · rename_i hc
      rw [governs_blank hc]
      split
      · exact ih _ _
      · rw [governs_blank hc, ih]
    · rename_i hc
      have hc := Bool.eq_false_iff.mpr hc
      rw [governs_visible hc, governs_visible hc, ih]

theorem governs_trimRight (marked : Bool) (s : List Char) :
    governs marked (trimRight s) = governs marked s := by
  induction s generalizing marked with
  | nil => rfl
  | cons c rest ih =>
    cases hc : isBlank c with
    | true =>
      rw [trimRight, governs_blank hc, ← ih]
      split
      · rename_i hnil
        rw [hnil, if_pos hc]
      · exact governs_blank hc marked _
    | false =>
      rw [trimRight, governs_visible hc, ← ih]
      split
      · rename_i hnil
        rw [hnil, if_neg (Bool.eq_false_iff.mp hc), governs_visible hc]
      · exact governs_visible hc marked _

/-- In a tight text, what stands next to a sign is what follows it without blanks. -/
theorem governsTerms_iff_governs {c : Char} (h : IsTight (c :: s)) :
    GovernsTerms (c :: s) ↔ governs (isSign c) s = true := by
  induction s generalizing c with
  | nil =>
    rw [governs, Bool.not_eq_true']
    exact ⟨fun hg => hg.last c rfl, fun hc => ⟨.singleton c, by simpa using hc⟩⟩
  | cons d rest ih =>
    obtain ⟨hpair, hrest⟩ := List.isChain_cons_cons.mp h
    have hsplit : GovernsTerms (c :: d :: rest) ↔
        (isSign c = true → isSign d = false) ∧ GovernsTerms (d :: rest) := by
      constructor
      · rintro ⟨hchain, hlast⟩
        rw [List.isChain_cons_cons] at hchain
        exact ⟨hchain.1, hchain.2, by rwa [List.getLast?_cons_cons] at hlast⟩
      · rintro ⟨hc, hchain, hlast⟩
        exact ⟨List.isChain_cons_cons.mpr ⟨hc, hchain⟩, by rwa [List.getLast?_cons_cons]⟩
    rw [hsplit, ih hrest]
    cases hd : isBlank d with
    | true =>
      -- A blank is no sign, and none stands before it.
      have hdsign : isSign d = false :=
        Bool.eq_false_iff.mpr fun hs => Bool.false_ne_true ((isBlank_of_isSign hs).symm.trans hd)
      have hcsign : isSign c = false :=
        Bool.eq_false_iff.mpr fun hs => Bool.false_ne_true ((hpair.1 hs).symm.trans hd)
      rw [governs_blank hd, hdsign, hcsign]
      simp
    | false =>
      rw [governs_visible hd]
      cases isSign c <;> simp

/-- A term takes the sign that stands before it. -/
theorem governs_letters {letters : List Char} (h : ∀ c ∈ letters, isWord c = true)
    (hne : letters ≠ []) (marked : Bool) (s : List Char) :
    governs marked (letters ++ s) = governs false s := by
  induction letters generalizing marked with
  | nil => exact absurd rfl hne
  | cons c rest ih =>
    rw [List.forall_mem_cons] at h
    rw [List.cons_append, governs_visible (isBlank_of_isWord h.1), isSign_of_isWord h.1]
    cases rest with
    | nil => rfl
    | cons d others => exact ih h.2 (by simp) false

/-- Where connectors are words as any other, only the signs among the gaps matter. -/
theorem governs_flatMap (h : ∀ g ∈ gs, g.IsProper) (marked : Bool) :
    governs marked (gs.flatMap Gap.text) = spread (fun _ => false) marked gs := by
  induction gs generalizing marked with
  | nil => rfl
  | cons g rest ih =>
    obtain ⟨hg, hrest⟩ := List.forall_mem_cons.mp h
    have hempty : governs false (rest.flatMap Gap.text) =
        (rest.isEmpty || spread (fun _ => false) false rest) := by
      cases rest with
      | nil => rfl
      | cons d others => exact ih hrest false
    have hword (b : Bool) : governs b (g.word ++ rest.flatMap Gap.text) =
        if g.word.isEmpty then spread (fun _ => false) b rest
        else rest.isEmpty || spread (fun _ => false) false rest := by
      cases hw : g.word with
      | nil => exact ih hrest b
      | cons c letters =>
        rw [← hw, governs_letters hg.word (by simp [hw]), hempty, hw]
        rfl
    change governs marked (g.char :: (g.word ++ rest.flatMap Gap.text)) = _
    rw [spread, Gap.passed]
    cases hblank : isBlank g.char with
    | true =>
      have hsign : isSign g.char = false :=
        Bool.eq_false_iff.mpr fun hs => Bool.false_ne_true ((isBlank_of_isSign hs).symm.trans hblank)
      rw [governs_blank hblank, hword, hsign]
      rfl
    | false =>
      rw [governs_visible hblank, hword]
      rfl

theorem governs_text {p : Sentence} (h : p.IsProper) :
    governs true p.text = p.isSpread fun _ => false := by
  rw [Sentence.text, Sentence.isSpread]
  cases hfirst : p.first with
  | nil => exact governs_flatMap h.gaps true
  | cons c letters =>
    rw [← hfirst, governs_letters h.first (by simp [hfirst]), governs_flatMap h.gaps, hfirst]
    cases p.gaps <;> rfl

end Text

section Neighbours

variable {s : List Char} {gs : List Gap}

def EndsMarked (s : List Char) : Prop :=
  ∃ k before first between, s = before ++ (first ++ between) ∧
    isInAnyCase (Connector.word k) first = true ∧
    (∀ c ∈ between, isBlank c = true) ∧ ∀ c ∈ before.getLast?, isWord c = false

theorem EndsMarked.blank {c : Char} (h : EndsMarked s) (hc : isBlank c = true) :
    EndsMarked (s ++ [c]) := by
  obtain ⟨k, before, first, between, rfl, hfirst, hbetween, hbefore⟩ := h
  refine ⟨k, before, first, between ++ [c], by simp, hfirst, ?_, hbefore⟩
  intro d hd
  rcases List.mem_append.mp hd with hd | hd
  · exact hbetween d hd
  · rw [List.mem_singleton.mp hd]
    exact hc

theorem isWord_of_isBlank {c : Char} (h : isBlank c = true) : isWord c = false :=
  Bool.eq_false_iff.mpr fun hc => Bool.false_ne_true ((isBlank_of_isWord hc).symm.trans h)

/-- A word ends where the next gap begins. -/
theorem isWord_head?_flatMap (h : ∀ g ∈ gs, g.IsProper) :
    ∀ c ∈ (gs.flatMap Gap.text).head?, isWord c = false := by
  cases gs with
  | nil => simp
  | cons g rest =>
    intro c hc
    rw [← Option.some_inj.mp hc]
    exact (h g List.mem_cons_self).char

/-- What is not spread has connectors with blanks alone between. -/
theorem spread_of_not_hasAdjacent (hgs : ∀ g ∈ gs, g.IsProper)
    (hsigns : ∀ g ∈ gs, isSign g.char = false) {before : List Char} {marked : Bool}
    (hmarked : marked = true → EndsMarked before)
    (hend : ∀ g ∈ gs.getLast?, g.word = [] → isBlank g.char = false)
    (hne : gs ≠ []) (h : ¬ HasAdjacent (before ++ gs.flatMap Gap.text)) :
    spread isConnector marked gs = true := by
  induction gs generalizing before marked with
  | nil => exact absurd rfl hne
  | cons g rest ih =>
    rw [List.forall_mem_cons] at hgs hsigns
    have hpassed : g.passed marked = true → isBlank g.char = true ∧ EndsMarked before := by
      intro hp
      rw [Gap.passed, hsigns.1] at hp
      split at hp
      · exact ⟨‹_›, hmarked hp⟩
      · cases hp
    have hrest (front : List Char) {b : Bool} (hb : b = true → EndsMarked front)
        (hfront : front ++ rest.flatMap Gap.text = before ++ (g :: rest).flatMap Gap.text)
        (hmore : rest ≠ []) : spread isConnector b rest = true := by
      refine ih hgs.2 hsigns.2 hb (fun d hd => hend d ?_) hmore (hfront ▸ h)
      rw [List.getLast?_cons_of_ne_nil hmore]
      exact hd
    rw [spread, hsigns.1, Bool.false_and, Bool.not_false, Bool.true_and]
    split
    · rename_i hword
      rw [List.isEmpty_iff] at hword
      cases rest with
      | nil =>
        rw [spread, Gap.passed, hend g rfl hword, hsigns.1]
        rfl
      | cons d others =>
        refine hrest (before ++ [g.char]) (fun hp => ?_) (by simp [Gap.text, hword]) (by simp)
        exact (hpassed hp).2.blank (hpassed hp).1
    · rw [Bool.and_eq_true, Bool.not_eq_true', Bool.and_eq_false_iff, Bool.or_eq_true,
        List.isEmpty_iff]
      constructor
      · by_contra hboth
        rw [not_or, Bool.not_eq_false, Bool.not_eq_false] at hboth
        obtain ⟨hblank, k, front, first, between, rfl, hfirst, hbetween, hfront⟩ := hpassed hboth.2
        obtain ⟨j, hj⟩ := exists_of_isConnector hboth.1
        refine h ⟨k, j, between ++ [g.char], ⟨front, first, g.word, rest.flatMap Gap.text, ?_, hfirst,
          hj, ⟨by simp, ?_⟩, hfront, isWord_head?_flatMap hgs.2⟩, ?_⟩
        · simp [Gap.text]
        · intro c hc
          rcases List.mem_append.mp hc with hc | hc
          · exact isWord_of_isBlank (hbetween c hc)
          · rw [List.mem_singleton.mp hc]
            exact hgs.1.char
        · intro c hc
          rcases List.mem_append.mp hc with hc | hc
          · exact hbetween c hc
          · rw [List.mem_singleton.mp hc]
            exact hblank
      · by_cases hmore : rest = []
        · exact .inl hmore
        · refine .inr (hrest (before ++ g.text) (fun hmark => ?_) (by simp [Gap.text]) hmore)
          obtain ⟨k, hk⟩ := exists_of_isConnector hmark
          refine ⟨k, before ++ [g.char], g.word, [], by simp [Gap.text], hk, by simp, ?_⟩
          simpa using hgs.1.char

/-- Marks that are not spread stay so behind another mark. -/
theorem spread_append_of_mark {mark : List Char → Bool} {hs : List Gap} {g : Gap}
    (h : spread mark true hs = false) (hne : hs ≠ []) (hword : g.word.isEmpty = false)
    (hmark : mark g.word = true) (b : Bool) : spread mark b (gs ++ g :: hs) = false := by
  induction gs generalizing b with
  | nil =>
    rw [List.nil_append, spread, hword, hmark, h, List.isEmpty_eq_false_iff.mpr hne]
    simp
  | cons d rest ih =>
    have hmore : (rest ++ g :: hs).isEmpty = false := by simp
    rw [List.cons_append, spread, ih, ih, hmore]
    simp

/-- A connector right behind another is not spread. -/
theorem spread_ofText_blanks {k : Connector} {between second after : List Char}
    (hbetween : ∀ c ∈ between, isBlank c = true) (hne : between ≠ [])
    (hsecond : isInAnyCase k.word second = true) (hafter : ∀ c ∈ after.head?, isWord c = false) :
    spread isConnector true (Gap.ofText (between ++ (second ++ after))) = false := by
  have hend : after.takeWhile isWord = [] := by
    cases after with
    | nil => rfl
    | cons c rest => exact takeWhile_gap (by simp [isGap, hafter c rfl]) rest
  have hword := takeWhile_letters (fun _ => isWord_of_isInAnyCase hsecond) hend
  induction between with
  | nil => exact absurd rfl hne
  | cons c rest ih =>
    rw [List.forall_mem_cons] at hbetween
    rw [List.cons_append, ofText_gap (isWord_of_isBlank hbetween.1), spread, Gap.passed,
      if_pos hbetween.1]
    cases rest with
    | nil =>
      rw [List.nil_append, hword, isEmpty_of_isInAnyCase hsecond, isConnector_of_isInAnyCase hsecond]
      simp
    | cons d others =>
      have hd : isWord d = false := isWord_of_isBlank (hbetween.2 d List.mem_cons_self)
      rw [ih hbetween.2 (by simp), List.cons_append, takeWhile_gap (by simp [isGap, hd])]
      simp

/-- Two neighbours with nothing but blanks between them are found wherever they are in the text. -/
theorem isSpread_of_hasAdjacent (h : HasAdjacent s) :
    (Sentence.ofText s).isSpread isConnector = false := by
  obtain ⟨j, k, between, ⟨before, first, second, after, rfl, hfirst, hsecond, hbetween, hbefore,
    hafter⟩, hblank⟩ := h
  have hletters := fun c (hc : c ∈ first) => isWord_of_isInAnyCase hfirst hc
  have hspread := spread_ofText_blanks hblank hbetween.1 hsecond hafter
  obtain ⟨b, others, hcons⟩ := List.exists_cons_of_ne_nil hbetween.1
  have hb : isWord b = false := hbetween.2 b (hcons ▸ List.mem_cons_self)
  have hstop : (between ++ (second ++ after)).takeWhile isWord = [] := by
    rw [hcons]
    exact takeWhile_gap (by simp [isGap, hb]) _
  have hgaps : Gap.ofText (between ++ (second ++ after)) ≠ [] := by
    rw [hcons, List.cons_append, ofText_gap hb]
    simp
  rcases List.eq_nil_or_concat' before with rfl | ⟨front, c, rfl⟩
  · rw [List.nil_append, Sentence.isSpread, Sentence.ofText, takeWhile_letters hletters hstop,
      ofText_letters hletters, isEmpty_of_isInAnyCase hfirst, isConnector_of_isInAnyCase hfirst,
      hspread, List.isEmpty_eq_false_iff.mpr hgaps]
    rfl
  · have hc : isWord c = false := hbefore c (by simp)
    have hsplit : Gap.ofText (front ++ [c] ++ (first ++ (between ++ (second ++ after)))) =
        Gap.ofText front ++ ⟨c, first⟩ :: Gap.ofText (between ++ (second ++ after)) := by
      rw [List.append_assoc, List.singleton_append, ofText_append_gap hc,
        takeWhile_letters hletters hstop, ofText_letters hletters]
    have hfalse (b : Bool) : spread isConnector b (Gap.ofText front ++ ⟨c, first⟩ ::
        Gap.ofText (between ++ (second ++ after))) = false :=
      spread_append_of_mark hspread hgaps (isEmpty_of_isInAnyCase hfirst)
        (isConnector_of_isInAnyCase hfirst) b
    have hmore : (Gap.ofText front ++ ⟨c, first⟩ ::
        Gap.ofText (between ++ (second ++ after))).isEmpty = false := by simp
    rw [Sentence.isSpread, Sentence.ofText]
    dsimp only
    rw [hsplit, hfalse, hfalse, hmore]
    simp

/-- Without a shared gap, no connector is the next word behind itself. -/
theorem isChain_words_of_not_hasShared (k : Connector) {w before : List Char}
    (hgs : ∀ g ∈ gs, g.IsProper) (hbefore : ∀ c ∈ before.getLast?, isWord c = false)
    (h : ¬ HasShared (before ++ (w ++ gs.flatMap Gap.text))) :
    (w :: gs.map Gap.word).IsChain (Unrepeated k) := by
  induction gs generalizing w before with
  | nil => exact .singleton w
  | cons g rest ih =>
    rw [List.forall_mem_cons] at hgs
    have hgap : ∀ c ∈ (before ++ (w ++ [g.char])).getLast?, isWord c = false := by
      simpa using hgs.1.char
    have hrest : ¬ HasShared (before ++ (w ++ [g.char]) ++ (g.word ++ rest.flatMap Gap.text)) := by
      simpa [Gap.text] using h
    refine List.isChain_cons_cons.mpr ⟨fun hw => ?_, ih hgs.2 hgap hrest⟩
    rw [Bool.eq_false_iff]
    intro hg
    refine h ⟨k, g.char, before, w, g.word, rest.flatMap Gap.text, by simp [Gap.text], hw, hg,
      ⟨by simp, ?_⟩, hbefore, isWord_head?_flatMap hgs.2⟩
    simpa using hgs.1.char

/-- The marks of a trimmed text without signs are spread unless connectors follow each other. -/
theorem isSpread_ofText_iff (hne : s ≠ []) (hhead : ∀ c ∈ s.head?, isBlank c = false)
    (hlast : ∀ c ∈ s.getLast?, isBlank c = false) (hsigns : ∀ c ∈ s, isSign c = false) :
    (Sentence.ofText s).isSpread isConnector = true ↔ ¬ HasAdjacent s := by
  constructor
  · intro hspread hadjacent
    exact Bool.false_ne_true ((isSpread_of_hasAdjacent hadjacent).symm.trans hspread)
  · intro hadjacent
    have htext := text_ofText s
    have hproper := isProper_ofText s
    generalize Sentence.ofText s = p at htext hproper ⊢
    obtain ⟨w, gs⟩ := p
    have htext : w ++ gs.flatMap Gap.text = s := htext
    have hgsigns : ∀ g ∈ gs, isSign g.char = false := by
      intro g hg
      refine hsigns g.char ?_
      rw [← htext, List.mem_append, List.mem_flatMap]
      exact .inr ⟨g, hg, List.mem_cons_self⟩
    have hend : ∀ g ∈ gs.getLast?, g.word = [] → isBlank g.char = false := by
      intro g hg hword
      obtain ⟨front, rfl⟩ := List.getLast?_eq_some_iff.mp hg
      refine hlast g.char ?_
      rw [← htext]
      simp [Gap.text, hword]
    rw [← htext] at hadjacent
    rw [Sentence.isSpread]
    dsimp only
    split
    · rename_i hw
      rw [List.isEmpty_iff] at hw
      cases gs with
      | nil => exact absurd (by rw [← htext, hw]; rfl) hne
      | cons g rest =>
        -- The sign before the text counts for nothing behind a character that is no blank.
        have hg : isBlank g.char = false := hhead g.char (by rw [← htext, hw]; rfl)
        have hmarked : false = true → EndsMarked w := fun hfalse => absurd hfalse Bool.false_ne_true
        have hspread := spread_of_not_hasAdjacent hproper.gaps hgsigns hmarked hend (by simp) hadjacent
        rw [spread, Gap.passed, hg, hgsigns g List.mem_cons_self] at hspread ⊢
        exact hspread
    · rename_i hw
      rw [Bool.or_eq_true, List.isEmpty_iff]
      refine or_iff_not_imp_left.mpr fun hmore => ?_
      refine spread_of_not_hasAdjacent hproper.gaps hgsigns (fun hmark => ?_) hend hmore hadjacent
      obtain ⟨k, hk⟩ := exists_of_isConnector hmark
      exact ⟨k, [], w, [], by simp, hk, by simp, by simp⟩

end Neighbours

section Query

variable {raw query : String}

theorem isBlank_head?_trim (s : List Char) : ∀ c ∈ (trim s).head?, isBlank c = false := by
  intro c hc
  obtain ⟨rest, hrest⟩ := List.head?_eq_some_iff.mp hc
  obtain ⟨tail, htail⟩ := trimRight_prefix_self (trimLeft s)
  have hleft : (s.dropWhile isBlank).head? = some c := by
    change (trimLeft s).head? = some c
    rw [← htail, ← trim, hrest]
    rfl
  have hnot := List.head?_dropWhile_not isBlank s
  rw [hleft] at hnot
  simpa using hnot

theorem mem_of_mem_trim {s : List Char} {c : Char} (hc : c ∈ trim s) : c ∈ s :=
  (List.dropWhile_suffix isBlank).subset ((trimRight_prefix_self _).subset hc)

theorem trim_ne_nil_of_booleanQuery? (h : booleanQuery? raw = some query) : trim raw.toList ≠ [] := by
  intro hnil
  rw [booleanQuery?, hnil] at h
  cases h

/-- The signs of a query govern terms if the signs of its text do before blanks are dropped. -/
theorem governsTerms_iff_isSpread (h : booleanQuery? raw = some query) :
    GovernsTerms query.toList ↔
      (((Sentence.ofText (trim raw.toList)).sign .and).sign .not).isSpread (fun _ => false) = true := by
  have hproper := isProper_ofText (trim raw.toList)
  have htight := isTight_of_booleanQuery? h
  have hsigned := signed_text hproper
  rw [text_ofText] at hsigned
  rw [toList_of_booleanQuery? h] at htight ⊢
  rw [governsTerms_iff_governs htight, isSign_leadingSign, governs_trimRight, governs_tighten, hsigned,
    governs_text (isProper_sign (isProper_sign hproper))]

/-- In the query for a text without signs, every sign governs a term if no connectors follow each other.
Where they do, some sign governs none, unless a connector is repeated with a single character between. -/
theorem governsTerms_of_booleanQuery? (hsigns : ∀ c ∈ raw.toList, isSign c = false)
    (h : booleanQuery? raw = some query) :
    (¬ HasAdjacent (trim raw.toList) → GovernsTerms query.toList) ∧
      (¬ HasShared (trim raw.toList) → HasAdjacent (trim raw.toList) → ¬ GovernsTerms query.toList) := by
  have hspread := isSpread_ofText_iff (trim_ne_nil_of_booleanQuery? h) (isBlank_head?_trim _)
    isBlank_getLast?_trimRight fun c hc => hsigns c (mem_of_mem_trim hc)
  rw [governsTerms_iff_isSpread h]
  constructor
  · intro hadjacent
    apply isSpread_of_isConnector
    rw [isSpread_sign, isSpread_sign]
    exact hspread.mpr hadjacent
  · intro hshared hadjacent
    have hproper := isProper_ofText (trim raw.toList)
    rw [← text_ofText (trim raw.toList)] at hshared
    have hbefore : ∀ c ∈ ([] : List Char).getLast?, isWord c = false := by simp
    rw [isSpread_signs fun k => isChain_words_of_not_hasShared k hproper.gaps hbefore hshared]
    exact fun hs => hspread.mp hs hadjacent

theorem governsTerms_red_and_blue : booleanQuery? "Red and blue, not green" = some "+Red+blue,-green" ∧
    GovernsTerms "+Red+blue,-green".toList := by
  have hquery : booleanQuery? "Red and blue, not green" = some "+Red+blue,-green" := by decide +kernel
  have hall : "Red and blue, not green".toList.all (!isSign ·) = true := by decide +kernel
  have hsigns : ∀ c ∈ "Red and blue, not green".toList, isSign c = false := fun c hc =>
    (Bool.not_eq_true' _).mp (List.all_eq_true.mp hall c hc)
  refine ⟨hquery, (governsTerms_of_booleanQuery? hsigns hquery).1 ?_⟩
  rw [← isSpread_ofText_iff (trim_ne_nil_of_booleanQuery? hquery) (isBlank_head?_trim _)
    isBlank_getLast?_trimRight fun c hc => hsigns c (mem_of_mem_trim hc)]
  decide +kernel

/-- The connectors are taken one kind after the other: a negation behind a conjunction gives a second sign,
and at the end it is dropped from behind the first. -/
theorem not_governsTerms_and_not : booleanQuery? "cats and not dogs" = some "+cats+-dogs" ∧
    ¬ GovernsTerms "+cats+-dogs".toList ∧
    booleanQuery? "cats and not" = some "+cats+" ∧ ¬ GovernsTerms "+cats+".toList := by
  refine ⟨by decide +kernel, fun h => ?_, by decide +kernel, fun h => ?_⟩
  · exact absurd h.apart (by decide +kernel)
  · exact Bool.false_ne_true (h.last '+' (by decide +kernel)).symm

end Query

end ComputedField.Filter
