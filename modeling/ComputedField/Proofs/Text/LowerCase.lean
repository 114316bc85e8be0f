import ComputedField.Proofs.Text.Ascii
import ComputedField.Text.LowerCase

/-!
# Lower case is lower case

No small form is a capital, so that making a text small a second time changes nothing. A text grows by
its dotted capitals, each of which becomes two characters, and by nothing else. What a final sigma
depends on does not reach across a character that has no case and is not passed over.
-/

namespace ComputedField.Text

namespace CapitalRun

/-- The code point of the first small form. -/
def lowest (r : CapitalRun) : Nat := (r.first + r.shift).toNat

/-- The code point of the last small form. -/
def highest (r : CapitalRun) : Nat := (r.last + r.shift).toNat

/-- Whether code points from `low` to `high`, so far apart, are seen not to be capitals of the run: they
lie on one side of it, or between its capitals. -/
def isMissedBy (low high stride : Nat) (r : CapitalRun) : Bool :=
  Nat.blt high r.first || Nat.blt r.last low ||
    ((stride == 2 || low == high) && r.stride == 2 && (low + r.first) % 2 == 1)

/-- Stretches of code points without a surrogate, a blank or a mark of punctuation. -/
def clearStretches : List (Nat × Nat) :=
  [(0x61, 0x7B), (0xC0, 0x1680), (0x1681, 0x2000), (0x2060, 0x3000), (0x3001, 0xD800),
    (0xE000, 0x110000)]

theorem le_of_mem_clearStretches : ∀ s ∈ clearStretches, 0x61 ≤ s.1 := by
  decide

/-- Whether a code point lies in one of the clear stretches. -/
def IsClear (n : Nat) : Prop := ∃ s ∈ clearStretches, s.1 ≤ n ∧ n < s.2

def dotted : CapitalRun := ⟨0x130, 0x130, 1, 0⟩

/-- No small form is the capital of any run, nor the dotted one. -/
theorem forall_isMissedBy : (capitalRuns.all fun r =>
    (dotted :: capitalRuns).all (isMissedBy r.lowest r.highest r.stride)) = true := by
  decide +kernel

/-- All small forms of a run lie in one clear stretch. -/
theorem forall_isClear : (capitalRuns.all fun r =>
    clearStretches.any fun s => s.1 ≤ r.lowest && r.highest < s.2) = true := by
  decide +kernel

variable {r s : CapitalRun} {n : Nat} {x : Char}

/-- A code point that a run misses is left alone by it. -/
theorem lower?_eq_none_of_isMissedBy {low high stride k : Nat}
    (h : isMissedBy low high stride s = true) (hhigh : low + k ≤ high)
    (hk : (stride = 2 → k % 2 = 0)) : s.lower? (low + k) = none := by
  unfold lower?
  refine if_neg fun hin => ?_
  simp only [isMissedBy, Nat.blt_eq, Bool.or_eq_true, Bool.and_eq_true, beq_iff_eq] at h
  obtain ⟨hfirst, hlast, hstride⟩ := hin
  rcases h with (h | h) | ⟨⟨h, hs⟩, hodd⟩
  · omega
  · omega
  · rw [hs] at hstride
    omega

theorem toNat_ofNat_of_isClear (h : IsClear n) : (Char.ofNat n).toNat = n := by
  obtain ⟨stretch, hmem, hstart, hbound⟩ := h
  have hvalid : n.isValidChar := by
    simp only [clearStretches, List.mem_cons, List.not_mem_nil, or_false] at hmem
    unfold Nat.isValidChar
    rcases hmem with rfl | rfl | rfl | rfl | rfl | rfl <;> simp only at hstart hbound <;> omega
  rw [Char.ofNat, dif_pos hvalid]
  rfl

/-- A small form lies in a clear stretch, as far behind the first one as the capital behind its own. -/
theorem exists_of_lower? (hr : r ∈ capitalRuns) (h : r.lower? n = some x) :
    ∃ k, x.toNat = r.lowest + k ∧ r.lowest + k ≤ r.highest ∧ (r.stride = 2 → k % 2 = 0) ∧
      IsClear (r.lowest + k) := by
  obtain ⟨stretch, hmem, hclear⟩ := List.any_eq_true.mp (List.all_eq_true.mp forall_isClear r hr)
  simp only [Bool.and_eq_true, decide_eq_true_eq] at hclear
  unfold lower? at h
  split at h
  · rename_i hin
    obtain ⟨hfirst, hlast, hstride⟩ := hin
    cases h
    have := le_of_mem_clearStretches stretch hmem
    have hcode : ((n : Int) + r.shift).toNat = r.lowest + (n - r.first) := by
      unfold lowest at hclear ⊢
      omega
    have hhigh : r.lowest + (n - r.first) ≤ r.highest := by
      rw [← hcode]
      unfold highest
      omega
    have hin : IsClear (r.lowest + (n - r.first)) := ⟨stretch, hmem, by omega, by omega⟩
    refine ⟨n - r.first, ?_, hhigh, fun htwo => ?_, hin⟩
    · rw [hcode, toNat_ofNat_of_isClear hin]
    · rwa [htwo] at hstride
  · cases h

/-- A small form is no capital. -/
theorem lower?_lower? (hr : r ∈ capitalRuns) (hs : s ∈ dotted :: capitalRuns)
    (h : r.lower? n = some x) : s.lower? x.toNat = none := by
  obtain ⟨k, hk, hhigh, heven, -⟩ := exists_of_lower? hr h
  have hmissed := List.all_eq_true.mp (List.all_eq_true.mp forall_isMissedBy r hr) s hs
  rw [hk]
  exact lower?_eq_none_of_isMissedBy hmissed hhigh heven

theorem isClear_of_lower? (hr : r ∈ capitalRuns) (h : r.lower? n = some x) : IsClear x.toNat := by
  obtain ⟨k, hk, -, -, hclear⟩ := exists_of_lower? hr h
  rwa [hk]

end CapitalRun

section Characters

variable {c x : Char}

/-- What a character is written as in lower case: an ASCII letter as its small form, the dotted capital
as two characters, a capital of a run as the small form that the run has for it, any other as itself. -/
theorem lowerChar_cases (c : Char) :
    (c.toNat < 0x80 ∧ lowerChar c = [c.toLower]) ∨ (c = 'İ' ∧ lowerChar c = ['i', '\u0307']) ∨
      (∃ r ∈ capitalRuns, ∃ x, r.lower? c.toNat = some x ∧ lowerChar c = [x]) ∨ lowerChar c = [c] := by
  unfold lowerChar
  split
  · rename_i h
    exact .inl ⟨h, rfl⟩
  · split
    · rename_i h
      exact .inr (.inl ⟨h, rfl⟩)
    · cases h : capitalRuns.findSome? (·.lower? c.toNat) with
      | none => exact .inr (.inr (.inr rfl))
      | some x =>
        obtain ⟨r, hr, hx⟩ := List.exists_of_findSome?_eq_some h
        exact .inr (.inr (.inl ⟨r, hr, x, hx, rfl⟩))

/-- A small form has no small form of its own. -/
theorem lowerChar_of_lower? {r : CapitalRun} {n : Nat} (hr : r ∈ capitalRuns)
    (h : r.lower? n = some x) : lowerChar x = [x] := by
  have hmissed : ∀ s ∈ CapitalRun.dotted :: capitalRuns, s.lower? x.toNat = none :=
    fun s hs => CapitalRun.lower?_lower? hr hs h
  rcases lowerChar_cases x with ⟨-, he⟩ | ⟨rfl, -⟩ | ⟨s, hs, y, hy, -⟩ | he
  · obtain ⟨stretch, hmem, hstart, -⟩ := CapitalRun.isClear_of_lower? hr h
    have hsmall := Nat.le_trans (CapitalRun.le_of_mem_clearStretches stretch hmem) hstart
    rw [he, toLower_of_isUpper_eq_false (isUpper_of_small hsmall)]
  · cases hmissed _ List.mem_cons_self
  · rw [hmissed s (List.mem_cons_of_mem _ hs)] at hy
    cases hy
  · exact he

/-- A small form keeps its form. -/
theorem lowerChar_of_mem_lowerChar (h : x ∈ lowerChar c) : lowerChar x = [x] := by
  rcases lowerChar_cases c with ⟨hc, he⟩ | ⟨-, he⟩ | ⟨r, hr, y, hy, he⟩ | he
  · rw [he, List.mem_singleton] at h
    rw [h, lowerChar_ascii (toNat_toLower_lt hc), toLower_of_isUpper_eq_false (isUpper_toLower c)]
  · rw [he, List.mem_cons, List.mem_singleton] at h
    rcases h with rfl | rfl <;> decide
  · rw [he, List.mem_singleton] at h
    subst h
    exact lowerChar_of_lower? hr hy
  · rw [he, List.mem_singleton] at h
    rwa [h]

/-- Only the dotted capital becomes two characters. -/
theorem length_lowerChar (c : Char) : (lowerChar c).length = if c = 'İ' then 2 else 1 := by
  by_cases hc : c = 'İ'
  · subst hc
    decide
  · rw [if_neg hc]
    rcases lowerChar_cases c with ⟨-, he⟩ | ⟨hdotted, -⟩ | ⟨r, hr, x, hx, he⟩ | he
    · rw [he, List.length_singleton]
    · exact absurd hdotted hc
    · rw [he, List.length_singleton]
    · rw [he, List.length_singleton]

end Characters

section Texts

variable {before s : List Char} {x : Char}

theorem lowerChar_sigma : lowerChar 'Σ' = ['σ'] := by
  decide

/-- The final sigma is the only character that is not the small form of one in the text. -/
theorem mem_lowerAfter (h : x ∈ lowerAfter before s) : (∃ c ∈ s, x ∈ lowerChar c) ∨ x = 'ς' := by
  induction s generalizing before with
  | nil => cases h
  | cons c rest ih =>
    rw [lowerAfter] at h
    split at h
    · rename_i hc
      rcases List.mem_cons.mp h with rfl | h
      · split
        · exact .inr rfl
        · exact .inl ⟨c, List.mem_cons_self, by rw [hc, lowerChar_sigma]; exact List.mem_cons_self⟩
      · refine (ih h).imp_left ?_
        rintro ⟨d, hd, hx⟩
        exact ⟨d, List.mem_cons_of_mem c hd, hx⟩
    · rcases List.mem_append.mp h with h | h
      · exact .inl ⟨c, List.mem_cons_self, h⟩
      · refine (ih h).imp_left ?_
        rintro ⟨d, hd, hx⟩
        exact ⟨d, List.mem_cons_of_mem c hd, hx⟩

theorem lowerChar_of_mem_lower (h : x ∈ lower s) : lowerChar x = [x] := by
  rcases mem_lowerAfter h with ⟨c, -, hx⟩ | rfl
  · exact lowerChar_of_mem_lowerChar hx
  · decide

theorem lowerAfter_eq_self (h : ∀ c ∈ s, lowerChar c = [c]) : lowerAfter before s = s := by
  induction s generalizing before with
  | nil => rfl
  | cons c rest ih =>
    have hc := h c List.mem_cons_self
    have hne : c ≠ 'Σ' := by
      rintro rfl
      rw [lowerChar_sigma] at hc
      revert hc
      decide
    rw [lowerAfter, if_neg hne, hc, ih fun d hd => h d (List.mem_cons_of_mem c hd)]
    rfl

theorem lower_eq_self (h : ∀ c ∈ s, lowerChar c = [c]) : lower s = s :=
  lowerAfter_eq_self h

/-- Lower case is its own lower case. -/
theorem lower_lower (s : List Char) : lower (lower s) = lower s :=
  lower_eq_self fun _ hc => lowerChar_of_mem_lower hc

/-- What stands before does not matter to the length. -/
theorem length_lowerAfter (before s : List Char) :
    (lowerAfter before s).length = s.length + s.count 'İ' := by
  induction s generalizing before with
  | nil => rfl
  | cons c rest ih =>
    rw [lowerAfter, List.length_cons, List.count_cons]
    split
    · rename_i hc
      rw [List.length_cons, ih, hc, if_neg (by decide)]
      omega
    · rw [List.length_append, ih, length_lowerChar]
      by_cases hc : c = 'İ'
      · rw [if_pos hc, if_pos (beq_iff_eq.mpr hc)]
        omega
      · rw [if_neg hc, if_neg (fun h => hc (beq_iff_eq.mp h))]
        omega

/-- A text grows by its dotted capitals in lower case. -/
theorem length_lower (s : List Char) : (lower s).length = s.length + s.count 'İ' :=
  length_lowerAfter [] s

end Texts

section Apart

variable {b : Char}

/-- Whether a character neither has case nor is passed over in the search for one that has. -/
def IsApart (b : Char) : Prop :=
  lowerChar b = [b] ∧ cased.contains b = false ∧ caseIgnorable.contains b = false

theorem meetsCased_append (hb : IsApart b) (s t : List Char) :
    meetsCased (s ++ b :: t) = meetsCased s := by
  unfold meetsCased
  rw [List.dropWhile_append]
  cases s.dropWhile caseIgnorable.contains with
  | nil => simp [hb.2.1, hb.2.2]
  | cons c rest => rfl

theorem lowerAfter_append_apart (hb : IsApart b) (before s t : List Char) :
    lowerAfter before (s ++ b :: t) =
      lowerAfter before s ++ lowerAfter (s.reverse ++ before) (b :: t) := by
  induction s generalizing before with
  | nil => rfl
  | cons c rest ih =>
    rw [List.cons_append, lowerAfter, lowerAfter, ih, meetsCased_append hb, List.reverse_cons,
      List.append_assoc, List.singleton_append]
    split
    · rfl
    · rw [List.append_assoc]

theorem lowerAfter_apart (hb : IsApart b) (before front s : List Char) :
    lowerAfter (front ++ b :: before) s = lowerAfter front s := by
  induction s generalizing front with
  | nil => rfl
  | cons c rest ih =>
    rw [lowerAfter, lowerAfter, meetsCased_append hb, ← List.cons_append, ih]

/-- On both sides of such a character, texts are lower-cased on their own. -/
theorem lower_append_apart (hb : IsApart b) (s t : List Char) :
    lower (s ++ b :: t) = lower s ++ b :: lower t := by
  have hne : b ≠ 'Σ' := by
    rintro rfl
    have h := hb.1
    rw [lowerChar_sigma] at h
    revert h
    decide
  rw [lower, lowerAfter_append_apart hb, lowerAfter, if_neg hne, hb.1, List.append_nil,
    ← List.nil_append (b :: s.reverse), lowerAfter_apart hb]
  rfl

/-- Words with such a character between them are made small one by one. -/
theorem lower_intercalate (hb : IsApart b) (ws : List (List Char)) :
    lower ([b].intercalate ws) = [b].intercalate (ws.map lower) := by
  induction ws with
  | nil => rfl
  | cons w rest ih =>
    cases rest with
    | nil => rw [List.intercalate_singleton, List.map_singleton, List.intercalate_singleton]
    | cons u others =>
      rw [List.intercalate_cons_cons, List.append_assoc, List.singleton_append,
        lower_append_apart hb, ih]
      simp only [List.map_cons, List.intercalate_cons_cons, List.append_assoc, List.singleton_append]

end Apart

end ComputedField.Text
