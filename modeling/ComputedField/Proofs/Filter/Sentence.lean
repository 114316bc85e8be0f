import Mathlib.Data.List.TakeWhile
import ComputedField.Proofs.Filter.Wording

/-!
# Texts as sentences

A text is a word, and behind it one character of no word after the other, each with the word behind it; any
of the words may be empty. What is done to the connectors of a text is done word by word to its sentence: a
connector becomes a gap with its sign, or it vanishes and leaves its gap.
-/

namespace ComputedField.Filter

open Text

/-- A character of no word, and the word behind it. -/
structure Gap where
  char : Char
  word : List Char
  deriving DecidableEq

namespace Gap

def text (g : Gap) : List Char := g.char :: g.word

def spells (k : Connector) (g : Gap) : Bool := isInAnyCase k.word g.word

structure IsProper (g : Gap) : Prop where
  char : isWord g.char = false
  word : ∀ c ∈ g.word, isWord c = true

def ofText : List Char → List Gap
  | [] => []
  | c :: rest => if isWord c then ofText rest else ⟨c, rest.takeWhile isWord⟩ :: ofText rest

/-- Puts the sign of a connector for each one with a gap behind it; a gap serves one connector only. -/
def signInner (k : Connector) : List Gap → List Gap
  | g :: d :: rest =>
    if g.spells k then ⟨g.char, []⟩ :: ⟨k.sign, []⟩ :: d :: signInner k rest
    else g :: signInner k (d :: rest)
  | gs => gs

def dropFinal (k : Connector) : List Gap → List Gap
  | [] => []
  | [g] => if g.spells k then [⟨g.char, []⟩] else [g]
  | g :: rest => g :: dropFinal k rest

end Gap

structure Sentence where
  first : List Char
  gaps : List Gap

namespace Sentence

def text (p : Sentence) : List Char := p.first ++ p.gaps.flatMap Gap.text

def ofText (s : List Char) : Sentence := ⟨s.takeWhile isWord, Gap.ofText s⟩

structure IsProper (p : Sentence) : Prop where
  first : ∀ c ∈ p.first, isWord c = true
  gaps : ∀ g ∈ p.gaps, g.IsProper

def signInner (k : Connector) (p : Sentence) : Sentence := ⟨p.first, Gap.signInner k p.gaps⟩

/-- Drops a connector at the front, and one at the end unless they share their gap. -/
def dropEdges (k : Connector) (p : Sentence) : Sentence :=
  match p.gaps with
  | g :: rest =>
    if isInAnyCase k.word p.first then ⟨[], g :: Gap.dropFinal k rest⟩
    else ⟨p.first, Gap.dropFinal k (g :: rest)⟩
  | [] => p

def sign (k : Connector) (p : Sentence) : Sentence := (p.signInner k).dropEdges k

end Sentence

section Splitting

variable {c : Char}

theorem ofText_letter (hc : isWord c = true) (s : List Char) : Gap.ofText (c :: s) = Gap.ofText s :=
  if_pos hc

theorem ofText_gap (hc : isWord c = false) (s : List Char) :
    Gap.ofText (c :: s) = ⟨c, s.takeWhile isWord⟩ :: Gap.ofText s :=
  if_neg (Bool.eq_false_iff.mp hc)

theorem ofText_letters {letters : List Char} (h : ∀ c ∈ letters, isWord c = true) (s : List Char) :
    Gap.ofText (letters ++ s) = Gap.ofText s := by
  induction letters with
  | nil => rfl
  | cons c rest ih =>
    rw [List.forall_mem_cons] at h
    rw [List.cons_append, ofText_letter h.1, ih h.2]

/-- A text may be taken apart at any of its gaps. -/
theorem ofText_append_gap (hc : isWord c = false) (s t : List Char) :
    Gap.ofText (s ++ c :: t) = Gap.ofText s ++ ⟨c, t.takeWhile isWord⟩ :: Gap.ofText t := by
  induction s with
  | nil => exact ofText_gap hc t
  | cons d rest ih =>
    rw [List.cons_append]
    cases hd : isWord d with
    | true => rw [ofText_letter hd, ofText_letter hd, ih]
    | false =>
      rw [ofText_gap hd, ofText_gap hd, ih, List.takeWhile_append]
      split
      · rw [List.takeWhile_cons_of_neg (by simp [hc]), List.append_nil]
        rename_i hlength
        rw [(List.takeWhile_prefix isWord).eq_of_length hlength]
        rfl
      · rfl

/-- A text is its sentence put together again. -/
theorem text_ofText (s : List Char) : (Sentence.ofText s).text = s := by
  induction s with
  | nil => rfl
  | cons c rest ih =>
    rw [Sentence.text, Sentence.ofText] at ih ⊢
    cases hc : isWord c with
    | true =>
      rw [ofText_letter hc, List.takeWhile_cons_of_pos hc]
      exact congrArg (c :: ·) ih
    | false =>
      rw [ofText_gap hc, List.takeWhile_cons_of_neg (by simp [hc])]
      exact congrArg (c :: ·) ih

theorem isProper_ofText (s : List Char) : (Sentence.ofText s).IsProper := by
  refine ⟨fun c hc => List.mem_takeWhile_imp hc, ?_⟩
  induction s with
  | nil => exact List.forall_mem_nil _
  | cons c rest ih =>
    change ∀ g ∈ Gap.ofText (c :: rest), g.IsProper
    cases hc : isWord c with
    | true =>
      rw [ofText_letter hc]
      exact ih
    | false =>
      rw [ofText_gap hc]
      exact List.forall_mem_cons.mpr ⟨⟨hc, fun d hd => List.mem_takeWhile_imp hd⟩, ih⟩

end Splitting

section Connectors

variable {k : Connector} {g : Gap} {gs : List Gap} {w : List Char}

theorem takeWhile_flatMap_text (h : ∀ g ∈ gs, g.IsProper) :
    (gs.flatMap Gap.text).takeWhile isWord = [] := by
  cases gs with
  | nil => rfl
  | cons g rest => exact List.takeWhile_cons_of_neg (by simp [(h g List.mem_cons_self).char])

theorem opensWith_sentence (hw : ∀ c ∈ w, isWord c = true) (h : ∀ g ∈ gs, g.IsProper) :
    opensWith k (w ++ gs.flatMap Gap.text) = isInAnyCase k.word w := by
  rw [opensWith, takeWhile_letters hw (takeWhile_flatMap_text h)]

/-- A rewriting that passes leaves a gap without a connector alone. -/
theorem Passes.gap_text {rewrite : List Char → List Char} (hp : Passes k rewrite)
    (h : ∀ d ∈ g :: gs, d.IsProper) (hg : g.spells k = false) :
    rewrite ((g :: gs).flatMap Gap.text) = g.text ++ rewrite (gs.flatMap Gap.text) := by
  rw [List.forall_mem_cons] at h
  change rewrite (g.char :: (g.word ++ gs.flatMap Gap.text)) = g.char :: (g.word ++ _)
  rw [hp.gap _ _ ((opensWith_sentence h.1.word h.2).trans hg), hp.append h.1.word]

theorem isGap_of_isProper (h : g.IsProper) : isGap g.char = true := by
  rw [isGap, h.char]
  rfl

/-- Signs are put for connectors within the text just as they are in its sentence. -/
theorem replaceInner_flatMap (h : ∀ g ∈ gs, g.IsProper) :
    replaceInner k (gs.flatMap Gap.text) = (Gap.signInner k gs).flatMap Gap.text := by
  fun_induction Gap.signInner k gs with
  | case1 g d rest hspelled ih =>
    obtain ⟨hg, hd, hrest⟩ := List.forall_mem_cons.mp h |>.imp_right List.forall_mem_cons.mp
    obtain ⟨x, y, z, hletters⟩ := exists_letters hspelled
    rw [Gap.spells, hletters] at hspelled
    have htext : (g :: d :: rest).flatMap Gap.text =
        g.char :: x :: y :: z :: d.char :: (d.word ++ rest.flatMap Gap.text) := by
      simp [Gap.text, hletters]
    rw [htext, replaceInner, isGap_of_isProper hg, hspelled, isGap_of_isProper hd,
      (passes_replaceInner k).append hd.word, ih hrest]
    rfl
  | case2 g d rest hspelled ih =>
    rw [(passes_replaceInner k).gap_text h (Bool.eq_false_iff.mpr hspelled),
      ih (List.forall_mem_cons.mp h).2]
    rfl
  | case3 gs hshort =>
    rcases gs with _ | ⟨g, _ | ⟨d, rest⟩⟩
    · rfl
    · cases hg : g.spells k with
      | false =>
        rw [(passes_replaceInner k).gap_text h hg]
        rfl
      | true =>
        obtain ⟨x, y, z, hletters⟩ := exists_letters hg
        have htext : [g].flatMap Gap.text = [g.char, x, y, z] := by simp [Gap.text, hletters]
        rw [htext]
        rfl
    · exact absurd rfl (hshort g d rest)

/-- The connector at the end vanishes from the text as it does from the sentence. -/
theorem dropLast_flatMap (h : ∀ g ∈ gs, g.IsProper) :
    dropLast k (gs.flatMap Gap.text) = (Gap.dropFinal k gs).flatMap Gap.text := by
  fun_induction Gap.dropFinal k gs with
  | case1 => rfl
  | case2 g hspelled =>
    obtain ⟨x, y, z, hletters⟩ := exists_letters hspelled
    rw [Gap.spells, hletters] at hspelled
    have htext : [g].flatMap Gap.text = [g.char, x, y, z] := by simp [Gap.text, hletters]
    rw [htext, dropLast, isGap_of_isProper (h g List.mem_cons_self), hspelled]
    rfl
  | case3 g hspelled =>
    rw [(passes_dropLast k).gap_text h (Bool.eq_false_iff.mpr hspelled)]
    rfl
  | case4 g rest hmore ih =>
    have hrest := ih (List.forall_mem_cons.mp h).2
    cases hg : g.spells k with
    | false =>
      rw [(passes_dropLast k).gap_text h hg, hrest]
      rfl
    | true =>
      obtain ⟨x, y, z, hletters⟩ := exists_letters hg
      obtain ⟨d, others, rfl⟩ := List.exists_cons_of_ne_nil fun hnil => hmore hnil
      have hword := (passes_dropLast k).append (fun _ => isWord_of_isInAnyCase hg)
        ((d :: others).flatMap Gap.text)
      rw [hrest, hletters] at hword
      have htext : (g :: d :: others).flatMap Gap.text =
          g.char :: ([x, y, z] ++ (d :: others).flatMap Gap.text) := by
        simp [Gap.text, hletters]
      -- Too much follows for the connector to be the last word.
      change _ = g.char :: (g.word ++ (Gap.dropFinal k (d :: others)).flatMap Gap.text)
      rw [htext, hletters, ← hword]
      rfl

/-- Signs are characters of no word. -/
theorem isProper_signInner (h : ∀ g ∈ gs, g.IsProper) : ∀ g ∈ Gap.signInner k gs, g.IsProper := by
  fun_induction Gap.signInner k gs with
  | case1 g d rest hspelled ih =>
    obtain ⟨hg, hd, hrest⟩ := List.forall_mem_cons.mp h |>.imp_right List.forall_mem_cons.mp
    have hsign : isWord k.sign = false := by cases k <;> rfl
    simp only [List.forall_mem_cons]
    exact ⟨⟨hg.char, by simp⟩, ⟨hsign, by simp⟩, hd, ih hrest⟩
  | case2 g d rest hspelled ih =>
    rw [List.forall_mem_cons] at h
    exact List.forall_mem_cons.mpr ⟨h.1, ih h.2⟩
  | case3 gs hshort => exact h

theorem isProper_dropFinal (h : ∀ g ∈ gs, g.IsProper) : ∀ g ∈ Gap.dropFinal k gs, g.IsProper := by
  fun_induction Gap.dropFinal k gs with
  | case1 => exact h
  | case2 g hspelled =>
    rw [List.forall_mem_singleton] at h ⊢
    exact ⟨h.char, by simp⟩
  | case3 g hspelled => exact h
  | case4 g rest hmore ih =>
    rw [List.forall_mem_cons] at h
    exact List.forall_mem_cons.mpr ⟨h.1, ih h.2⟩

variable {p : Sentence}

theorem replaceInner_text (h : p.IsProper) : replaceInner k p.text = (p.signInner k).text := by
  rw [Sentence.text, (passes_replaceInner k).append h.first, replaceInner_flatMap h.gaps]
  rfl

theorem dropEdges_text (h : p.IsProper) : dropEdges k p.text = (p.dropEdges k).text := by
  obtain ⟨w, gs⟩ := p
  have hopens : opensWith k (w ++ gs.flatMap Gap.text) = isInAnyCase k.word w :=
    opensWith_sentence h.first h.gaps
  cases hw : isInAnyCase k.word w with
  | false =>
    rw [hw] at hopens
    rw [Sentence.text, dropEdges_eq_dropLast (beginsWith_eq_false hopens),
      (passes_dropLast k).append h.first, dropLast_flatMap h.gaps, Sentence.dropEdges]
    cases gs with
    | nil => rfl
    | cons g rest =>
      dsimp only
      rw [hw]
      rfl
  | true =>
    obtain ⟨x, y, z, rfl⟩ := exists_letters hw
    cases gs with
    | nil => rfl
    | cons g rest =>
      obtain ⟨hg, hrest⟩ := List.forall_mem_cons.mp h.gaps
      change dropEdges k (x :: y :: z :: g.char :: (g.word ++ rest.flatMap Gap.text)) = _
      rw [dropEdges, hw, isGap_of_isProper hg, (passes_dropLast k).append hg.word,
        dropLast_flatMap hrest, Sentence.dropEdges]
      dsimp only
      rw [hw]
      rfl

theorem isProper_sign (h : p.IsProper) : (p.sign k).IsProper := by
  have hgaps := isProper_signInner (k := k) h.gaps
  rw [Sentence.sign, Sentence.signInner, Sentence.dropEdges]
  dsimp only
  split
  · rename_i g rest hsplit
    rw [hsplit, List.forall_mem_cons] at hgaps
    split
    · exact ⟨by simp, List.forall_mem_cons.mpr ⟨hgaps.1, isProper_dropFinal hgaps.2⟩⟩
    · exact ⟨h.first, isProper_dropFinal (List.forall_mem_cons.mpr hgaps)⟩
  · exact ⟨h.first, hgaps⟩

theorem isProper_of_signInner (h : p.IsProper) : (p.signInner k).IsProper :=
  ⟨h.first, isProper_signInner h.gaps⟩

/-- The signs are put word by word. -/
theorem signed_text (h : p.IsProper) : signed p.text = ((p.sign .and).sign .not).text := by
  have hand := isProper_sign (k := .and) h
  rw [signed, replaceInner_text h, dropEdges_text (isProper_of_signInner h)]
  change dropEdges .not (replaceInner .not (p.sign .and).text) = _
  rw [replaceInner_text hand, dropEdges_text (isProper_of_signInner hand)]
  rfl

end Connectors

end ComputedField.Filter
