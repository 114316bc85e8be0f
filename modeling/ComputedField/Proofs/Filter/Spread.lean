import Mathlib.Data.List.Chain
import ComputedField.Proofs.Filter.Sentence

/-!
# Marks apart from each other

A mark is a sign, or a connector that is to become one. What is done to the connectors of a sentence keeps
its marks as far from each other as they were, and once it is done no mark is left but the signs, unless a
connector was taken for a word because the one before it had used up their only gap.
-/

namespace ComputedField.Filter

open Text

def isConnector (word : List Char) : Bool :=
  isInAnyCase Connector.and.word word || isInAnyCase Connector.not.word word

/-- Whether what stands before a gap is a mark with only blanks since, once the gap is passed. -/
def Gap.passed (marked : Bool) (g : Gap) : Bool := if isBlank g.char then marked else isSign g.char

/-- No mark, which is a sign or one of some words, is followed by another one or by the end with only blanks
between; `marked` tells that such a mark stands before. A word at the end may be a mark. -/
def spread (mark : List Char → Bool) : Bool → List Gap → Bool
  | marked, [] => !marked
  | marked, g :: rest =>
    !(isSign g.char && marked) &&
      if g.word.isEmpty then spread mark (g.passed marked) rest
      else !(mark g.word && g.passed marked) && (rest.isEmpty || spread mark (mark g.word) rest)

/-- The marks of a sentence are spread, behind a sign that goes before everything but a word at the front. -/
def Sentence.isSpread (mark : List Char → Bool) (p : Sentence) : Bool :=
  if p.first.isEmpty then spread mark true p.gaps
  else p.gaps.isEmpty || spread mark (mark p.first) p.gaps

section Marks

variable {mark : List Char → Bool} {k : Connector} {gs hs : List Gap} {w : List Char}

theorem isConnector_of_isInAnyCase (h : isInAnyCase k.word w = true) : isConnector w = true := by
  rw [isConnector, Bool.or_eq_true]
  cases k with
  | and => exact .inl h
  | not => exact .inr h

theorem exists_of_isConnector (h : isConnector w = true) :
    ∃ k : Connector, isInAnyCase k.word w = true := by
  rw [isConnector, Bool.or_eq_true] at h
  exact h.elim (⟨.and, ·⟩) (⟨.not, ·⟩)

theorem isEmpty_of_isInAnyCase (h : isInAnyCase k.word w = true) : w.isEmpty = false := by
  obtain ⟨x, y, z, rfl⟩ := exists_letters h
  rfl

theorem isSign_sign (k : Connector) : isSign k.sign = true := by
  cases k <;> rfl

theorem passed_sign (k : Connector) (marked : Bool) (w : List Char) :
    Gap.passed marked ⟨k.sign, w⟩ = true := by
  cases k <;> rfl

theorem spread_cons_congr (h : ∀ b, spread mark b gs = spread mark b hs)
    (hempty : gs.isEmpty = hs.isEmpty) (b : Bool) (g : Gap) :
    spread mark b (g :: gs) = spread mark b (g :: hs) := by
  rw [spread, spread, hempty, h, h]

theorem isEmpty_signInner (k : Connector) (gs : List Gap) :
    (Gap.signInner k gs).isEmpty = gs.isEmpty := by
  fun_cases Gap.signInner k gs <;> rfl

theorem isEmpty_dropFinal (k : Connector) (gs : List Gap) :
    (Gap.dropFinal k gs).isEmpty = gs.isEmpty := by
  fun_cases Gap.dropFinal k gs <;> rfl

/-- A connector with gaps around it is as good a mark as its sign. -/
theorem spread_signInner (k : Connector) (b : Bool) (gs : List Gap) :
    spread isConnector b (Gap.signInner k gs) = spread isConnector b gs := by
  fun_induction Gap.signInner k gs generalizing b with
  | case1 g d rest hspelled ih =>
    have hrest := spread_cons_congr ih (isEmpty_signInner k rest) true d
    have hword := isEmpty_of_isInAnyCase hspelled
    have hmark := isConnector_of_isInAnyCase hspelled
    rw [spread, spread, spread.eq_2 _ b g, passed_sign, isSign_sign, hrest, hword, hmark]
    rfl
  | case2 g d rest hspelled ih => exact spread_cons_congr ih (isEmpty_signInner k _) b g
  | case3 gs hshort => rfl

/-- A connector at the end is no mark that another one could miss. -/
theorem spread_dropFinal (k : Connector) (b : Bool) (gs : List Gap) :
    spread isConnector b (Gap.dropFinal k gs) = spread isConnector b gs := by
  fun_induction Gap.dropFinal k gs generalizing b with
  | case1 => rfl
  | case2 g hspelled =>
    have hword := isEmpty_of_isInAnyCase hspelled
    have hmark := isConnector_of_isInAnyCase hspelled
    change (!(isSign g.char && b) && !g.passed b) = _
    rw [spread, hword, hmark]
    cases g.passed b <;> rfl
  | case3 g hspelled => rfl
  | case4 g rest hmore ih => exact spread_cons_congr ih (isEmpty_dropFinal k rest) b g

/-- The marks of a sentence stay as spread as they were when connectors become signs. -/
theorem isSpread_sign (k : Connector) (p : Sentence) :
    (p.sign k).isSpread isConnector = p.isSpread isConnector := by
  have hinner : (p.signInner k).isSpread isConnector = p.isSpread isConnector := by
    rw [Sentence.isSpread, Sentence.isSpread, Sentence.signInner]
    dsimp only
    rw [spread_signInner, spread_signInner, isEmpty_signInner]
  rw [← hinner, Sentence.sign, Sentence.dropEdges]
  split
  · rename_i g rest hgaps
    have hrest := spread_cons_congr (spread_dropFinal k · rest) (isEmpty_dropFinal k rest) true g
    split
    · rename_i hfirst
      rw [Sentence.isSpread, Sentence.isSpread, hgaps, isEmpty_of_isInAnyCase hfirst,
        isConnector_of_isInAnyCase hfirst]
      exact hrest
    · rw [Sentence.isSpread, Sentence.isSpread, hgaps]
      dsimp only
      rw [spread_dropFinal, spread_dropFinal, isEmpty_dropFinal]
  · rfl

/-- Fewer marks are spread as well. -/
theorem spread_of_isConnector {b c : Bool} (hbc : b = true → c = true)
    (h : spread isConnector c gs = true) : spread (fun _ => false) b gs = true := by
  induction gs generalizing b c with
  | nil =>
    rw [spread, Bool.not_eq_true'] at h ⊢
    exact Bool.eq_false_iff.mpr fun hb => Bool.false_ne_true (h.symm.trans (hbc hb))
  | cons g rest ih =>
    have hpassed : g.passed b = true → g.passed c = true := by
      rw [Gap.passed, Gap.passed]
      split
      · exact hbc
      · exact id
    rw [spread, Bool.and_eq_true] at h ⊢
    refine ⟨?_, ?_⟩
    · cases hb : b with
      | false => simp
      | true =>
        have hsign := h.1
        rwa [hbc hb] at hsign
    · have hrest := h.2
      split
      · rename_i hword
        rw [if_pos hword] at hrest
        exact ih hpassed hrest
      · rename_i hword
        rw [if_neg hword, Bool.and_eq_true, Bool.or_eq_true] at hrest
        rw [Bool.false_and, Bool.not_false, Bool.true_and, Bool.or_eq_true]
        exact hrest.2.imp_right (ih (b := false) nofun)

theorem isSpread_of_isConnector {p : Sentence} (h : p.isSpread isConnector = true) :
    p.isSpread (fun _ => false) = true := by
  rw [Sentence.isSpread] at h ⊢
  split
  · rename_i hfirst
    rw [if_pos hfirst] at h
    exact spread_of_isConnector id h
  · rename_i hfirst
    rw [if_neg hfirst, Bool.or_eq_true] at h
    exact Bool.or_eq_true_iff.mpr (h.imp_right (spread_of_isConnector nofun))

theorem spread_eq_of_forall (h : ∀ g ∈ gs, isConnector g.word = false) (b : Bool) :
    spread isConnector b gs = spread (fun _ => false) b gs := by
  induction gs generalizing b with
  | nil => rfl
  | cons g rest ih =>
    rw [List.forall_mem_cons] at h
    rw [spread, spread, h.1, ih h.2, ih h.2]

end Marks

section Left

variable {j k : Connector} {gs : List Gap} {w : List Char}

def Unrepeated (k : Connector) (u v : List Char) : Prop :=
  isInAnyCase k.word u = true → isInAnyCase k.word v = false

def Sentence.words (p : Sentence) : List (List Char) := p.first :: p.gaps.map Gap.word

theorem unrepeated_nil_left (k : Connector) (v : List Char) : Unrepeated k [] v := by
  intro h
  rw [isInAnyCase_nil] at h
  cases h

theorem unrepeated_nil_right (k : Connector) (u : List Char) : Unrepeated k u [] := fun _ =>
  isInAnyCase_nil k

/-- A connector that becomes a sign leaves an empty word, which repeats nothing. -/
theorem isChain_signInner (h : (w :: gs.map Gap.word).IsChain (Unrepeated j)) :
    (w :: (Gap.signInner k gs).map Gap.word).IsChain (Unrepeated j) := by
  fun_induction Gap.signInner k gs generalizing w with
  | case1 g d rest hspelled ih =>
    simp only [List.map_cons, List.isChain_cons_cons] at h ⊢
    exact ⟨unrepeated_nil_right j w, unrepeated_nil_left j [], unrepeated_nil_left j d.word, ih h.2.2⟩
  | case2 g d rest hspelled ih =>
    rw [List.map_cons, List.isChain_cons_cons] at h ⊢
    exact ⟨h.1, ih h.2⟩
  | case3 gs hshort => exact h

theorem isChain_dropFinal (h : (w :: gs.map Gap.word).IsChain (Unrepeated j)) :
    (w :: (Gap.dropFinal k gs).map Gap.word).IsChain (Unrepeated j) := by
  fun_induction Gap.dropFinal k gs generalizing w with
  | case1 => exact h
  | case2 g hspelled => exact List.isChain_cons_cons.mpr ⟨unrepeated_nil_right j w, .singleton []⟩
  | case3 g hspelled => exact h
  | case4 g rest hmore ih =>
    rw [List.map_cons, List.isChain_cons_cons] at h ⊢
    exact ⟨h.1, ih h.2⟩

/-- No repetition comes about in the rewriting. -/
theorem isChain_sign {p : Sentence} (h : p.words.IsChain (Unrepeated j)) :
    (p.sign k).words.IsChain (Unrepeated j) := by
  have hinner : (p.first :: (Gap.signInner k p.gaps).map Gap.word).IsChain (Unrepeated j) :=
    isChain_signInner h
  rw [Sentence.sign, Sentence.dropEdges, Sentence.signInner]
  dsimp only
  split
  · rename_i g rest hgaps
    rw [hgaps] at hinner
    split
    · refine List.isChain_cons_cons.mpr ⟨unrepeated_nil_left j g.word, isChain_dropFinal ?_⟩
      exact (List.isChain_cons_cons.mp hinner).2
    · exact isChain_dropFinal hinner
  · exact hinner

/-- Only at the end can a connector be left, where none is repeated with a single gap. -/
theorem spells_signInner (h : (gs.map Gap.word).IsChain (Unrepeated k)) :
    ∀ g ∈ (Gap.signInner k gs).dropLast, g.spells k = false := by
  fun_induction Gap.signInner k gs with
  | case1 g d rest hspelled ih =>
    simp only [List.map_cons, List.isChain_cons_cons] at h
    have hgap (c : Char) : Gap.spells k ⟨c, []⟩ = false := isInAnyCase_nil k
    have hlast := ih h.2.tail
    rw [List.dropLast_cons_cons, List.dropLast_cons_cons]
    refine List.forall_mem_cons.mpr ⟨hgap _, List.forall_mem_cons.mpr ⟨hgap _, ?_⟩⟩
    cases hrest : Gap.signInner k rest with
    | nil => simp
    | cons e others =>
      rw [List.dropLast_cons_cons, ← hrest]
      exact List.forall_mem_cons.mpr ⟨h.1 hspelled, hlast⟩
  | case2 g d rest hspelled ih =>
    have hlast := ih h.tail
    cases hrest : Gap.signInner k (d :: rest) with
    | nil => simp
    | cons e others =>
      rw [List.dropLast_cons_cons, ← hrest]
      exact List.forall_mem_cons.mpr ⟨Bool.eq_false_iff.mpr hspelled, hlast⟩
  | case3 gs hshort =>
    rcases gs with _ | ⟨g, _ | ⟨d, rest⟩⟩
    · simp
    · simp
    · exact absurd rfl (hshort g d rest)

/-- What is at the end has gone, and nothing else was a connector. -/
theorem spells_dropFinal (h : ∀ g ∈ gs.dropLast, g.spells k = false) :
    ∀ g ∈ Gap.dropFinal k gs, g.spells k = false := by
  fun_induction Gap.dropFinal k gs with
  | case1 => simp
  | case2 g hspelled => exact List.forall_mem_singleton.mpr (isInAnyCase_nil k)
  | case3 g hspelled => exact List.forall_mem_singleton.mpr (Bool.eq_false_iff.mpr hspelled)
  | case4 g rest hmore ih =>
    obtain ⟨d, others, rfl⟩ := List.exists_cons_of_ne_nil fun hnil => hmore hnil
    rw [List.dropLast_cons_cons, List.forall_mem_cons] at h
    exact List.forall_mem_cons.mpr ⟨h.1, ih h.2⟩

theorem forall_signInner (h : ∀ g ∈ gs, g.spells j = false) :
    ∀ g ∈ Gap.signInner k gs, g.spells j = false := by
  fun_induction Gap.signInner k gs with
  | case1 g d rest hspelled ih =>
    have hgap (c : Char) : Gap.spells j ⟨c, []⟩ = false := isInAnyCase_nil j
    simp only [List.forall_mem_cons] at h ⊢
    exact ⟨hgap _, hgap _, h.2.1, ih h.2.2⟩
  | case2 g d rest hspelled ih =>
    rw [List.forall_mem_cons] at h
    exact List.forall_mem_cons.mpr ⟨h.1, ih h.2⟩
  | case3 gs hshort => exact h

theorem forall_dropFinal (h : ∀ g ∈ gs, g.spells j = false) :
    ∀ g ∈ Gap.dropFinal k gs, g.spells j = false := by
  fun_induction Gap.dropFinal k gs with
  | case1 => exact h
  | case2 g hspelled => exact List.forall_mem_singleton.mpr (isInAnyCase_nil j)
  | case3 g hspelled => exact h
  | case4 g rest hmore ih =>
    rw [List.forall_mem_cons] at h
    exact List.forall_mem_cons.mpr ⟨h.1, ih h.2⟩

/-- Whether a connector stands nowhere but as the only word. -/
structure Sentence.IsFreeOf (k : Connector) (p : Sentence) : Prop where
  first : p.gaps = [] ∨ isInAnyCase k.word p.first = false
  gaps : ∀ g ∈ p.gaps, g.spells k = false

variable {p : Sentence}

/-- One pass removes all connectors of its kind, unless one was repeated. -/
theorem isFreeOf_sign (h : p.words.IsChain (Unrepeated k)) : (p.sign k).IsFreeOf k := by
  have hinner := isChain_signInner (k := k) h
  have hgaps := spells_signInner h.tail
  rw [Sentence.sign, Sentence.dropEdges, Sentence.signInner]
  dsimp only
  split
  · rename_i g rest hsplit
    rw [hsplit] at hgaps hinner
    split
    · rename_i hfirst
      have hg := (List.isChain_cons_cons.mp hinner).1 hfirst
      refine ⟨.inr (isInAnyCase_nil k), List.forall_mem_cons.mpr ⟨hg, spells_dropFinal ?_⟩⟩
      intro d hd
      refine hgaps d ?_
      cases rest with
      | nil => cases hd
      | cons e others => exact List.mem_cons_of_mem g hd
    · rename_i hfirst
      exact ⟨.inr (Bool.eq_false_iff.mpr hfirst), spells_dropFinal hgaps⟩
  · rename_i hnil
    exact ⟨.inl hnil, by simp [hnil]⟩

/-- A pass for one connector brings no other one back. -/
theorem Sentence.IsFreeOf.sign (h : p.IsFreeOf j) : (p.sign k).IsFreeOf j := by
  have hinner := forall_signInner (k := k) h.gaps
  have hempty : p.gaps = [] → Gap.signInner k p.gaps = [] := by
    intro hnil
    rw [hnil]
    rfl
  rw [Sentence.sign, Sentence.dropEdges, Sentence.signInner]
  dsimp only
  split
  · rename_i g rest hsplit
    rw [hsplit] at hinner hempty
    have hfirst := h.first.resolve_left fun hnil => List.cons_ne_nil g rest (hempty hnil)
    split
    · rw [List.forall_mem_cons] at hinner
      exact ⟨.inr (isInAnyCase_nil j), List.forall_mem_cons.mpr ⟨hinner.1, forall_dropFinal hinner.2⟩⟩
    · exact ⟨.inr hfirst, forall_dropFinal hinner⟩
  · rename_i hnil
    exact ⟨.inl hnil, hinner⟩

/-- After both passes, the signs are the marks that are left. -/
theorem isSpread_eq_of_isFreeOf (h : ∀ k, p.IsFreeOf k) :
    p.isSpread isConnector = p.isSpread fun _ => false := by
  have hgaps : ∀ g ∈ p.gaps, isConnector g.word = false := fun g hg =>
    Bool.or_eq_false_iff.mpr ⟨(h .and).gaps g hg, (h .not).gaps g hg⟩
  rw [Sentence.isSpread, Sentence.isSpread, spread_eq_of_forall hgaps, spread_eq_of_forall hgaps]
  cases hsplit : p.gaps with
  | nil => rfl
  | cons g rest =>
    have hfirst : isConnector p.first = false :=
      Bool.or_eq_false_iff.mpr
        ⟨(h .and).first.resolve_left (by simp [hsplit]), (h .not).first.resolve_left (by simp [hsplit])⟩
    rw [hfirst]

/-- Where no connector is repeated with a single gap, every mark is a sign in the end. -/
theorem isSpread_signs (h : ∀ k, p.words.IsChain (Unrepeated k)) :
    ((p.sign .and).sign .not).isSpread (fun _ => false) = p.isSpread isConnector := by
  have hfree : ∀ k, ((p.sign .and).sign .not).IsFreeOf k := by
    intro k
    cases k with
    | and => exact (isFreeOf_sign (h .and)).sign
    | not => exact isFreeOf_sign (isChain_sign (h .not))
  rw [← isSpread_eq_of_isFreeOf hfree, isSpread_sign, isSpread_sign]

end Left

end ComputedField.Filter
