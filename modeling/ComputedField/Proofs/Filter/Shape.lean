import Mathlib.Data.List.Chain
import ComputedField.Proofs.Filter.Wording

/-!
# The shape of a boolean query

A query begins with the sign that says whether its text is negated. Blanks next to signs are dropped, so
that a sign stands right before what it marks, and a query holds more than signs.
-/

namespace ComputedField.Filter

open Text

def IsLedBy (k : Connector) (s : List Char) : Prop :=
  ∃ letters gap rest, s = letters ++ gap :: rest ∧ isInAnyCase k.word letters = true ∧
    isWord gap = false

/-- What the rewriting looks for in front is a connector that is a word of its own. -/
theorem beginsWith_iff {k : Connector} {s : List Char} :
    beginsWith k s = true ↔ IsLedBy k s := by
  constructor
  · intro h
    match s, h with
    | x :: y :: z :: gap :: rest, h =>
      rw [beginsWith, Bool.and_eq_true] at h
      exact ⟨[x, y, z], gap, rest, rfl, h.1, by simpa [isGap] using h.2⟩
  · rintro ⟨letters, gap, rest, rfl, hletters, hgap⟩
    obtain ⟨x, y, z, rfl⟩ := exists_letters hletters
    exact (Bool.and_eq_true _ _).mpr ⟨hletters, by simp [isGap, hgap]⟩

theorem isBlank_of_isSign {c : Char} (h : isSign c = true) : isBlank c = false := by
  simp only [isSign, Bool.or_eq_true, beq_iff_eq] at h
  rcases h with rfl | rfl <;> rfl

/-- No blank stands next to a sign. -/
def IsTight (s : List Char) : Prop :=
  s.IsChain fun c d => (isSign c = true → isBlank d = false) ∧ (isSign d = true → isBlank c = false)

section Tighten

variable {s : List Char}

/-- Behind a sign no blank is left. -/
theorem isBlank_head?_tighten : ∀ c ∈ (tighten true s).head?, isBlank c = false := by
  induction s with
  | nil => simp [tighten]
  | cons c rest ih =>
    rw [tighten]
    cases hc : isBlank c with
    | true => exact ih
    | false =>
      intro d hd
      rw [← Option.some_inj.mp hd, hc]

/-- Where no sign follows, none follows when blanks are dropped. -/
theorem isSign_head?_tighten (h : (trimLeft s).head?.any isSign = false) :
    ∀ c ∈ (tighten false s).head?, isSign c = false := by
  cases s with
  | nil => simp [tighten]
  | cons c rest =>
    cases hc : isBlank c with
    | true =>
      rw [trimLeft, List.dropWhile_cons_of_pos hc, ← trimLeft] at h
      rw [tighten, if_pos hc, h]
      intro d hd
      rw [← Option.some_inj.mp hd, Bool.eq_false_iff]
      intro hsign
      exact absurd ((isBlank_of_isSign hsign).symm.trans hc) Bool.false_ne_true
    | false =>
      rw [trimLeft, List.dropWhile_cons_of_neg (by simp [hc])] at h
      rw [tighten, hc]
      intro d hd
      rw [← Option.some_inj.mp hd]
      exact h

/-- Blanks are removed on both sides of a sign. -/
theorem isTight_tighten (afterSign : Bool) (s : List Char) : IsTight (tighten afterSign s) := by
  induction s generalizing afterSign with
  | nil => exact .nil
  | cons c rest ih =>
    rw [tighten]
    cases hc : isBlank c with
    | true =>
      cases hdropped : afterSign || (trimLeft rest).head?.any isSign with
      | true => exact ih afterSign
      | false =>
        have hnext := isSign_head?_tighten (Bool.or_eq_false_iff.mp hdropped).2
        refine List.isChain_cons.mpr ⟨fun d hd => ⟨fun hsign => ?_, fun hsign => ?_⟩, ih false⟩
        · exact absurd ((isBlank_of_isSign hsign).symm.trans hc) Bool.false_ne_true
        · exact absurd ((hnext d hd).symm.trans hsign) Bool.false_ne_true
    | false =>
      refine List.isChain_cons.mpr ⟨fun d hd => ⟨fun hsign => ?_, fun _ => hc⟩, ih _⟩
      rw [hsign] at hd
      exact isBlank_head?_tighten d hd

theorem trimRight_prefix_self (s : List Char) : trimRight s <+: s := by
  induction s with
  | nil => exact List.prefix_refl []
  | cons c rest ih =>
    rw [trimRight]
    split
    · split
      · exact List.nil_prefix
      · exact List.cons_prefix_cons.mpr ⟨rfl, List.nil_prefix⟩
    · exact List.cons_prefix_cons.mpr ⟨rfl, ih⟩

/-- No blank is left at the end. -/
theorem isBlank_getLast?_trimRight : ∀ c ∈ (trimRight s).getLast?, isBlank c = false := by
  induction s with
  | nil => simp [trimRight]
  | cons c rest ih =>
    rw [trimRight]
    split
    · split
      · simp
      · rename_i hc
        simpa using hc
    · rename_i hkept
      rw [List.getLast?_cons_of_ne_nil hkept]
      exact ih

theorem trimRight_cons {c : Char} (hc : isBlank c = false) (s : List Char) :
    trimRight (c :: s) = c :: trimRight s := by
  rw [trimRight]
  split
  · rename_i hnil
    rw [hnil, hc]
    rfl
  · rfl

/-- Behind a sign, signs and blanks alone come to signs alone. -/
theorem IsTight.all_isSign {c : Char} (h : IsTight (c :: s)) (hc : isSign c = true)
    (hs : ∀ d ∈ s, isSign d = true ∨ isBlank d = true) : ∀ d ∈ s, isSign d = true := by
  induction s generalizing c with
  | nil => simp
  | cons d rest ih =>
    obtain ⟨hpair, hrest⟩ := List.isChain_cons_cons.mp h
    rw [List.forall_mem_cons] at hs
    have hd : isSign d = true := by
      refine hs.1.resolve_right fun hblank => ?_
      exact absurd ((hpair.1 hc).symm.trans hblank) Bool.false_ne_true
    exact List.forall_mem_cons.mpr ⟨hd, ih hrest hd hs.2⟩

end Tighten

/-- What every query for a trimmed text looks like. -/
structure IsShapedFor (s query : List Char) : Prop where
  negated : IsLedBy .not s → query.head? = some '-'
  wanted : ¬ IsLedBy .not s → query.head? = some '+'
  tight : IsTight query
  last : ∀ c ∈ query.getLast?, isBlank c = false
  /-- Something is asked for. -/
  term : ∃ c ∈ query, isSign c = false ∧ isBlank c = false

section Query

variable {raw query : String}

theorem isSign_leadingSign (s : List Char) : isSign (leadingSign s) = true := by
  rw [leadingSign]
  split <;> rfl

/-- The sign at the front stays there. -/
theorem toList_of_booleanQuery? (h : booleanQuery? raw = some query) :
    query.toList = leadingSign (trim raw.toList) ::
      trimRight (tighten true (signed (trim raw.toList))) := by
  have hsign := isSign_leadingSign (trim raw.toList)
  have hblank := isBlank_of_isSign hsign
  have htight : tighten false (leadingSign (trim raw.toList) :: signed (trim raw.toList)) =
      leadingSign (trim raw.toList) :: tighten true (signed (trim raw.toList)) := by
    rw [tighten, hblank, hsign]
    rfl
  rw [booleanQuery?, htight] at h
  split at h
  · cases h
  · rw [← Option.some_inj.mp h, String.toList_ofList, trim, trimLeft,
      List.dropWhile_cons_of_neg (by simp [hblank]), trimRight_cons hblank]

theorem isTight_of_booleanQuery? (h : booleanQuery? raw = some query) : IsTight query.toList := by
  have hsign := isSign_leadingSign (trim raw.toList)
  have hblank := isBlank_of_isSign hsign
  have htight := isTight_tighten false (leadingSign (trim raw.toList) :: signed (trim raw.toList))
  rw [tighten, hblank, hsign] at htight
  have hprefix := trimRight_prefix_self (leadingSign (trim raw.toList) ::
    tighten true (signed (trim raw.toList)))
  rw [trimRight_cons hblank, ← toList_of_booleanQuery? h] at hprefix
  exact List.IsChain.prefix htight hprefix

/-- A query is more than signs: it has something to look for. -/
theorem exists_not_isSign_of_booleanQuery? (h : booleanQuery? raw = some query) :
    ∃ c ∈ query.toList, isSign c = false := by
  rw [booleanQuery?] at h
  split at h
  · cases h
  · rename_i hsome
    rw [← Option.some_inj.mp h, String.toList_ofList]
    rw [Bool.not_eq_true, Bool.or_eq_false_iff] at hsome
    simpa [List.all_eq_false] using hsome.2

/-- A query has its sign at the front, no blank next to a sign or at the end, and a character of a
term. -/
theorem isShapedFor_of_booleanQuery? (h : booleanQuery? raw = some query) :
    IsShapedFor (trim raw.toList) query.toList := by
  have hquery := toList_of_booleanQuery? h
  have htight := isTight_of_booleanQuery? h
  constructor
  case negated =>
    intro hled
    rw [hquery, leadingSign, if_pos (beginsWith_iff.mpr hled)]
    rfl
  case wanted =>
    intro hled
    rw [hquery, leadingSign, if_neg (mt beginsWith_iff.mp hled)]
    rfl
  case tight => exact htight
  case last =>
    have hsign := isSign_leadingSign (trim raw.toList)
    rw [hquery, ← trimRight_cons (isBlank_of_isSign hsign)]
    exact isBlank_getLast?_trimRight
  case term =>
    by_contra hnone
    -- Without a term, the blanks are dropped behind the sign at the front and only signs are left.
    have hothers : ∀ c ∈ query.toList, isSign c = true ∨ isBlank c = true := by
      intro c hc
      by_contra hneither
      rw [not_or, Bool.not_eq_true, Bool.not_eq_true] at hneither
      exact hnone ⟨c, hc, hneither⟩
    obtain ⟨c, hc, hsign⟩ := exists_not_isSign_of_booleanQuery? h
    rw [hquery] at htight hothers hc
    have hleading := isSign_leadingSign (trim raw.toList)
    have hall := htight.all_isSign hleading fun d hd => hothers d (List.mem_cons_of_mem _ hd)
    rcases List.mem_cons.mp hc with rfl | hc
    · exact Bool.false_ne_true (hsign.symm.trans hleading)
    · exact Bool.false_ne_true (hsign.symm.trans (hall c hc))

theorem isShapedFor_not_and_tab :
    booleanQuery? " NOT\u3000, cats \t+ and\n" = some "-, cats+" ∧
      IsShapedFor "NOT\u3000, cats \t+ and".toList "-, cats+".toList := by
  have h : booleanQuery? " NOT\u3000, cats \t+ and\n" = some "-, cats+" := by decide +kernel
  have htrim : trim " NOT\u3000, cats \t+ and\n".toList = "NOT\u3000, cats \t+ and".toList := by
    decide +kernel
  exact ⟨h, htrim ▸ isShapedFor_of_booleanQuery? h⟩

end Query

end ComputedField.Filter
