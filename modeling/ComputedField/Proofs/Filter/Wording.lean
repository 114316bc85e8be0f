import Mathlib.Data.List.Basic
import ComputedField.Filter.BooleanQuery
import ComputedField.Proofs.Text.Word

/-!
# Natural wordings

A wording is a row of words with spaces, connectors or signs between them, and perhaps a `not` before
them. Its query has the sign of each connector in the place of it. The connectors are replaced one kind
after the other, and each time a connector takes the gaps around it along: what carries the proof is that
every gap has a word behind it, and that only a gap with a connector behind it changes.
-/

namespace ComputedField.Filter

open Text

section Characters

variable {c : Char}

theorem isSign_of_isWord (h : isWord c = true) : isSign c = false := by
  rw [Bool.eq_false_iff]
  intro hsign
  simp only [isSign, Bool.or_eq_true, beq_iff_eq] at hsign
  rcases hsign with rfl | rfl <;> cases h

theorem isGap_sign (k : Connector) : isGap k.sign = true := by
  cases k <;> rfl

end Characters

section Spelling

variable {k j : Connector} {letters : List Char}

theorem isInAnyCase_nil (k : Connector) : isInAnyCase k.word [] = false := by
  cases k <;> rfl

theorem exists_letters (h : isInAnyCase k.word letters = true) : ∃ x y z, letters = [x, y, z] := by
  have hlength : letters.length = 3 := by
    rw [← List.length_map (f := Char.toLower), beq_iff_eq.mp h]
    cases k <;> rfl
  exact List.length_eq_three.mp hlength

theorem isWord_of_isInAnyCase (h : isInAnyCase k.word letters = true) {c : Char} (hc : c ∈ letters) :
    isWord c = true := by
  have hmem : c.toLower ∈ k.word := beq_iff_eq.mp h ▸ List.mem_map_of_mem hc
  have hlower : ∀ d ∈ k.word, d.isLower = true := List.all_eq_true.mp (by cases k <;> rfl)
  exact isWord_of_isLower_toLower (hlower _ hmem)

theorem isInAnyCase_of_ne (h : isInAnyCase j.word letters = true) (hjk : j ≠ k) :
    isInAnyCase k.word letters = false := by
  rw [isInAnyCase, beq_iff_eq.mp h]
  match j, k with
  | .and, .not | .not, .and => rfl
  | .and, .and | .not, .not => exact absurd rfl hjk

end Spelling

/-- A word that is no connector in any case. -/
structure Term where
  letters : List Char
  ne_nil : letters ≠ []
  isWord : ∀ c ∈ letters, Text.isWord c = true
  notConnector : ∀ k : Connector, isInAnyCase k.word letters = false

/-- What stands between two terms: a space, or a connector in any case or a sign with spaces around. -/
inductive Link where
  | space
  | spelled (k : Connector) (letters : List Char) (h : isInAnyCase k.word letters = true)
  | sign (k : Connector)

namespace Link

def text : Link → List Char
  | .space => [' ']
  | .spelled _ letters _ => ' ' :: (letters ++ [' '])
  | .sign k => [' ', k.sign, ' ']

def mark : Link → Char
  | .space => ' '
  | .spelled k _ _ => k.sign
  | .sign k => k.sign

/-- The link with a sign for the connector, if it is this one. -/
def signed (k : Connector) : Link → Link
  | .spelled j letters h => if j = k then .sign k else .spelled j letters h
  | l => l

def Spells (k : Connector) : Link → Prop
  | .spelled j _ _ => j = k
  | _ => False

end Link

/-- Terms, with something for each link between them. -/
def spell (shown : Link → List Char) (first : Term) : List (Link × Term) → List Char
  | [] => first.letters
  | (l, t) :: rest => first.letters ++ (shown l ++ spell shown t rest)

structure Wording where
  /-- A `not` in any case before everything else. -/
  negation : Option { letters : List Char // isInAnyCase Connector.not.word letters = true }
  first : Term
  others : List (Link × Term)

namespace Wording

variable (w : Wording)

def lead : List Char :=
  match w.negation with
  | none => []
  | some ⟨letters, _⟩ => letters ++ [' ']

def text : String := String.ofList (w.lead ++ spell Link.text w.first w.others)

def leading : Connector := if w.negation.isSome then .not else .and

def query : String :=
  String.ofList (w.leading.sign :: spell (fun l => [l.mark]) w.first w.others)

end Wording

section Passes

/-- Whether a text begins with a connector that is a word of its own. -/
def opensWith (k : Connector) (s : List Char) : Bool := isInAnyCase k.word (s.takeWhile isWord)

/-- Whether a rewriting leaves a text alone but for gaps with a connector behind them. -/
structure Passes (k : Connector) (rewrite : List Char → List Char) : Prop where
  nil : rewrite [] = []
  word : ∀ c s, isWord c = true → rewrite (c :: s) = c :: rewrite s
  gap : ∀ c s, opensWith k s = false → rewrite (c :: s) = c :: rewrite s

variable {k : Connector} {rewrite : List Char → List Char} {letters s : List Char}

theorem takeWhile_letters (hletters : ∀ c ∈ letters, isWord c = true)
    (hs : s.takeWhile isWord = []) : (letters ++ s).takeWhile isWord = letters := by
  rw [List.takeWhile_append_of_pos hletters, hs, List.append_nil]

theorem takeWhile_gap {c : Char} (hc : isGap c = true) (s : List Char) :
    (c :: s).takeWhile isWord = [] :=
  List.takeWhile_cons_of_neg (by simpa [isGap] using hc)

theorem opensWith_letters (h : isInAnyCase k.word letters = true) (j : Connector)
    (hs : s.takeWhile isWord = []) : opensWith j (letters ++ s) = isInAnyCase j.word letters := by
  rw [opensWith, takeWhile_letters (fun _ => isWord_of_isInAnyCase h) hs]

theorem opensWith_of_isInAnyCase (h : isInAnyCase k.word letters = true)
    (hs : s.takeWhile isWord = []) : opensWith k (letters ++ s) = true :=
  (opensWith_letters h k hs).trans h

theorem opensWith_gap {c : Char} (hc : isGap c = true) (s : List Char) :
    opensWith k (c :: s) = false := by
  rw [opensWith, takeWhile_gap hc]
  exact isInAnyCase_nil k

theorem passes_replaceInner (k : Connector) : Passes k (replaceInner k) where
  nil := rfl
  word c s hc := by
    match s with
    | x :: y :: z :: d :: rest =>
      rw [replaceInner, isGap, hc]
      rfl
    | [] | [_] | [_, _] | [_, _, _] => rfl
  gap c s h := by
    match s with
    | x :: y :: z :: d :: rest =>
      rw [replaceInner, if_neg]
      -- What would be replaced has a gap behind it and so is the whole word.
      intro hmatch
      simp only [Bool.and_eq_true] at hmatch
      obtain ⟨⟨-, hletters⟩, hd⟩ := hmatch
      have hopens := opensWith_of_isInAnyCase hletters (takeWhile_gap hd rest)
      exact Bool.false_ne_true (h.symm.trans hopens)
    | [] | [_] | [_, _] | [_, _, _] => rfl

theorem passes_dropLast (k : Connector) : Passes k (dropLast k) where
  nil := rfl
  word c s hc := by
    match s with
    | [x, y, z] =>
      rw [dropLast, isGap, hc]
      rfl
    | [] | [_] | [_, _] | _ :: _ :: _ :: _ :: _ => rfl
  gap c s h := by
    match s with
    | [x, y, z] =>
      rw [dropLast, if_neg]
      · rfl
      · intro hmatch
        obtain ⟨-, hletters⟩ := (Bool.and_eq_true _ _).mp hmatch
        have hopens := opensWith_of_isInAnyCase (s := []) hletters rfl
        exact Bool.false_ne_true (h.symm.trans hopens)
    | [] | [_] | [_, _] | _ :: _ :: _ :: _ :: _ => rfl

theorem beginsWith_eq_false (h : opensWith k s = false) : beginsWith k s = false := by
  match s with
  | x :: y :: z :: d :: rest =>
    rw [Bool.eq_false_iff, beginsWith]
    intro hmatch
    obtain ⟨hletters, hd⟩ := (Bool.and_eq_true _ _).mp hmatch
    have hopens := opensWith_of_isInAnyCase hletters (takeWhile_gap hd rest)
    exact Bool.false_ne_true (h.symm.trans hopens)
  | [] | [_] | [_, _] | [_, _, _] => rfl

theorem dropEdges_eq_dropLast (h : beginsWith k s = false) : dropEdges k s = dropLast k s := by
  match s with
  | x :: y :: z :: d :: rest =>
    rw [beginsWith] at h
    rw [dropEdges, h]
    rfl
  | [] | [_] | [_, _] | [_, _, _] => rfl

theorem Passes.append (h : Passes k rewrite) (hletters : ∀ c ∈ letters, isWord c = true)
    (s : List Char) : rewrite (letters ++ s) = letters ++ rewrite s := by
  induction letters with
  | nil => rfl
  | cons c rest ih =>
    rw [List.forall_mem_cons] at hletters
    rw [List.cons_append, h.word c _ hletters.1, ih hletters.2, List.cons_append]

/-- A link is passed over unless it spells the connector that is looked for. -/
theorem Passes.link (h : Passes k rewrite) {l : Link} (hl : ¬ l.Spells k)
    (hs : opensWith k s = false) :
    rewrite (l.text ++ s) = l.text ++ rewrite s := by
  cases l with
  | space => exact h.gap ' ' s hs
  | spelled j letters hj =>
    have hnot : opensWith k (letters ++ ' ' :: s) = false :=
      (opensWith_letters hj k (takeWhile_gap rfl s)).trans (isInAnyCase_of_ne hj hl)
    calc rewrite (' ' :: (letters ++ [' ']) ++ s)
        = rewrite (' ' :: (letters ++ ' ' :: s)) := by simp
      _ = ' ' :: (letters ++ ' ' :: rewrite s) := by
        rw [h.gap ' ' _ hnot, h.append (fun _ => isWord_of_isInAnyCase hj), h.gap ' ' s hs]
      _ = ' ' :: (letters ++ [' ']) ++ rewrite s := by simp
  | sign j =>
    change rewrite (' ' :: j.sign :: ' ' :: s) = ' ' :: j.sign :: ' ' :: rewrite s
    rw [h.gap ' ' _ (opensWith_gap (isGap_sign j) _), h.gap j.sign _ (opensWith_gap rfl s),
      h.gap ' ' s hs]

theorem takeWhile_text (l : Link) (s : List Char) : (l.text ++ s).takeWhile isWord = [] := by
  cases l <;> rfl

/-- A wording does not open with a connector, since its first term is none. -/
theorem opensWith_spell (k : Connector) (f : Link → Link) (t : Term) (ls : List (Link × Term)) :
    opensWith k (spell (fun l => (f l).text) t ls) = false := by
  have hfirst : (spell (fun l => (f l).text) t ls).takeWhile isWord = t.letters := by
    match ls with
    | [] =>
      have hend : (t.letters ++ []).takeWhile isWord = t.letters := takeWhile_letters t.isWord rfl
      rwa [List.append_nil] at hend
    | (l, u) :: rest => exact takeWhile_letters t.isWord (takeWhile_text (f l) _)
  rw [opensWith, hfirst]
  exact t.notConnector k

/-- A rewriting that passes goes from link to link. -/
theorem Passes.spell_eq (h : Passes k rewrite) {f g : Link → Link}
    (hlink : ∀ l s, opensWith k s = false →
      rewrite ((f l).text ++ s) = (g l).text ++ rewrite s) (t : Term) (ls : List (Link × Term)) :
    rewrite (spell (fun l => (f l).text) t ls) = spell (fun l => (g l).text) t ls := by
  induction ls generalizing t with
  | nil =>
    have hend := h.append t.isWord []
    rwa [h.nil, List.append_nil] at hend
  | cons first rest ih =>
    obtain ⟨l, u⟩ := first
    -- What comes behind the link opens with the term `u`, and that is no connector.
    rw [spell, h.append t.isWord, hlink l _ (opensWith_spell k f u rest), ih, spell]

/-- Between gaps, the connectors of one kind become signs. -/
theorem replaceInner_link (l : Link) (hs : opensWith k s = false) :
    replaceInner k (l.text ++ s) = (l.signed k).text ++ replaceInner k s := by
  cases l with
  | spelled j letters hj =>
    by_cases hjk : j = k
    · subst hjk
      obtain ⟨x, y, z, rfl⟩ := exists_letters hj
      change replaceInner j (' ' :: x :: y :: z :: ' ' :: s) = _
      rw [replaceInner, hj, Link.signed, if_pos rfl]
      rfl
    · rw [Link.signed, if_neg hjk]
      exact (passes_replaceInner k).link hjk hs
  | space => exact (passes_replaceInner k).link id hs
  | sign j => exact (passes_replaceInner k).link id hs

/-- Once it is signed, a link does not spell the connector any more. -/
theorem Link.not_spells_signed (k : Connector) (l : Link) : ¬ (l.signed k).Spells k := by
  cases l with
  | spelled j letters hj =>
    rw [Link.signed]
    split
    · exact id
    · assumption
  | space => exact id
  | sign j => exact id

/-- What stands before the first term is passed over. -/
theorem Passes.lead (h : Passes k rewrite) (w : Wording)
    (hs : opensWith k s = false) :
    rewrite (w.lead ++ s) = w.lead ++ rewrite s := by
  rw [Wording.lead]
  match w.negation with
  | none => rfl
  | some ⟨letters, hletters⟩ =>
    calc rewrite (letters ++ [' '] ++ s)
        = rewrite (letters ++ ' ' :: s) := by simp
      _ = letters ++ ' ' :: rewrite s := by
        rw [h.append (fun _ => isWord_of_isInAnyCase hletters), h.gap ' ' s hs]
      _ = letters ++ [' '] ++ rewrite s := by simp

end Passes

section Signed

def Link.allSigned (l : Link) : Link := (l.signed .and).signed .not

variable (w : Wording)

theorem opensWith_wording (f : Link → Link) :
    opensWith .and (w.lead ++ spell (fun l => (f l).text) w.first w.others) = false := by
  rw [Wording.lead]
  match w.negation with
  | none => exact opensWith_spell .and f w.first w.others
  | some ⟨letters, hletters⟩ =>
    rw [List.append_assoc, opensWith_letters hletters .and rfl]
    exact isInAnyCase_of_ne hletters nofun

/-- A rewriting that passes leaves a `not` at the front alone. -/
theorem Passes.wording {k : Connector} {rewrite : List Char → List Char} (h : Passes k rewrite)
    {f g : Link → Link} (hlink : ∀ l s, opensWith k s = false →
      rewrite ((f l).text ++ s) = (g l).text ++ rewrite s) :
    rewrite (w.lead ++ spell (fun l => (f l).text) w.first w.others) =
      w.lead ++ spell (fun l => (g l).text) w.first w.others := by
  rw [h.lead w (opensWith_spell k f w.first w.others), h.spell_eq hlink]

/-- The sign in front depends on a leading connector, whatever case it is written in. -/
theorem leadingSign_wording :
    leadingSign (w.lead ++ spell Link.text w.first w.others) = w.leading.sign := by
  rw [leadingSign, Wording.lead, Wording.leading]
  match w.negation with
  | none =>
    have hfirst := beginsWith_eq_false (opensWith_spell .not id w.first w.others)
    rw [List.nil_append, show beginsWith .not (spell Link.text w.first w.others) = false from hfirst]
    rfl
  | some ⟨letters, hletters⟩ =>
    obtain ⟨x, y, z, rfl⟩ := exists_letters hletters
    have hbegins : beginsWith .not ([x, y, z] ++ [' '] ++ spell Link.text w.first w.others) = true :=
      (Bool.and_eq_true _ _).mpr ⟨hletters, rfl⟩
    rw [hbegins]
    rfl

/-- The signs stand where the connectors stood, and of a `not` at the front only its gap is left. -/
theorem signed_wording : signed (w.lead ++ spell Link.text w.first w.others) =
    (if w.negation.isSome then [' '] else []) ++ spell (fun l => l.allSigned.text) w.first w.others := by
  have hand : replaceInner .and (w.lead ++ spell Link.text w.first w.others) =
      w.lead ++ spell (fun l => (l.signed .and).text) w.first w.others :=
    (passes_replaceInner .and).wording w (f := id) fun _ _ hs => replaceInner_link _ hs
  have hedges : dropEdges .and (w.lead ++ spell (fun l => (l.signed .and).text) w.first w.others) =
      w.lead ++ spell (fun l => (l.signed .and).text) w.first w.others := by
    -- A wording ends in a term, so the edges have no `and` to lose.
    rw [dropEdges_eq_dropLast (beginsWith_eq_false (opensWith_wording w _))]
    exact (passes_dropLast .and).wording w fun l _ =>
      (passes_dropLast .and).link (l.not_spells_signed .and)
  have hnot : replaceInner .not (w.lead ++ spell (fun l => (l.signed .and).text) w.first w.others) =
      w.lead ++ spell (fun l => l.allSigned.text) w.first w.others :=
    (passes_replaceInner .not).wording w fun _ _ hs => replaceInner_link _ hs
  have hlast : dropLast .not (spell (fun l => l.allSigned.text) w.first w.others) =
      spell (fun l => l.allSigned.text) w.first w.others :=
    (passes_dropLast .not).spell_eq
      (fun l _ => (passes_dropLast .not).link ((l.signed .and).not_spells_signed .not)) _ _
  rw [signed, hand, hedges, hnot, Wording.lead]
  match w.negation with
  | none =>
    have hfirst := beginsWith_eq_false (opensWith_spell .not Link.allSigned w.first w.others)
    exact (dropEdges_eq_dropLast hfirst).trans hlast
  | some ⟨letters, hletters⟩ =>
    obtain ⟨x, y, z, rfl⟩ := exists_letters hletters
    change dropEdges .not (x :: y :: z :: ' ' :: spell (fun l => l.allSigned.text) w.first w.others) = _
    rw [dropEdges, hletters, hlast]
    rfl

end Signed

section Spacing

variable {s : List Char}

theorem Term.exists_cons (t : Term) :
    ∃ c rest, t.letters = c :: rest ∧ Text.isWord c = true := by
  obtain ⟨c, rest, h⟩ := List.exists_cons_of_ne_nil t.ne_nil
  exact ⟨c, rest, h, t.isWord c (h ▸ List.mem_cons_self)⟩

theorem exists_cons_spell (f : Link → List Char) (t : Term) (ls : List (Link × Term)) :
    ∃ c rest, spell f t ls = c :: rest ∧ isWord c = true := by
  obtain ⟨c, rest, h, hc⟩ := t.exists_cons
  match ls with
  | [] => exact ⟨c, rest, h, hc⟩
  | (l, u) :: others => exact ⟨c, rest ++ (f l ++ spell f u others), by rw [spell, h]; rfl, hc⟩

theorem trimLeft_cons {c : Char} (hc : isBlank c = false) (s : List Char) :
    trimLeft (c :: s) = c :: s :=
  List.dropWhile_cons_of_neg (by simp [hc])

theorem tighten_word {c : Char} (hc : isWord c = true) (b : Bool) (s : List Char) :
    tighten b (c :: s) = c :: tighten false s := by
  rw [tighten, isBlank_of_isWord hc, isSign_of_isWord hc]
  rfl

theorem tighten_letters {letters : List Char} (h : ∀ c ∈ letters, isWord c = true) (s : List Char) :
    tighten false (letters ++ s) = letters ++ tighten false s := by
  induction letters with
  | nil => rfl
  | cons c rest ih =>
    rw [List.forall_mem_cons] at h
    rw [List.cons_append, tighten_word h.1, ih h.2, List.cons_append]

/-- Spaces around a sign are dropped, and others are kept. -/
theorem tighten_link (l : Link) {c : Char} (hc : isWord c = true) (s : List Char) :
    tighten false (l.allSigned.text ++ c :: s) = l.mark :: tighten false (c :: s) := by
  have hsign : ∀ k : Connector, tighten false ((Link.sign k).text ++ c :: s) =
      k.sign :: tighten false (c :: s) := by
    intro k
    rw [tighten_word hc, ← tighten_word hc true]
    cases k <;> rfl
  cases l with
  | space =>
    have hkept : (trimLeft (c :: s)).head?.any isSign = false := by
      rw [trimLeft_cons (isBlank_of_isWord hc)]
      exact isSign_of_isWord hc
    change tighten false (' ' :: c :: s) = ' ' :: tighten false (c :: s)
    rw [tighten, hkept]
    rfl
  | spelled k letters hk =>
    have hsigned : (Link.spelled k letters hk).allSigned = .sign k := by cases k <;> rfl
    rw [hsigned, hsign]
    rfl
  | sign k => exact hsign k

/-- Every sign ends up right between its terms. -/
theorem tighten_spell (t : Term) (ls : List (Link × Term)) :
    tighten false (spell (fun l => l.allSigned.text) t ls) = spell (fun l => [l.mark]) t ls := by
  induction ls generalizing t with
  | nil =>
    have hend := tighten_letters t.isWord []
    rwa [tighten, List.append_nil] at hend
  | cons first rest ih =>
    obtain ⟨l, u⟩ := first
    obtain ⟨c, s, hspell, hc⟩ := exists_cons_spell (fun l => l.allSigned.text) u rest
    rw [spell, tighten_letters t.isWord, hspell, tighten_link l hc, ← hspell, ih]
    rfl

theorem trimRight_append {s t : List Char} (ht : trimRight t = t) (hne : t ≠ []) :
    trimRight (s ++ t) = s ++ t := by
  induction s with
  | nil => exact ht
  | cons c rest ih =>
    rw [List.cons_append, trimRight, ih]
    split
    · rename_i h
      exact absurd (List.append_eq_nil_iff.mp h).2 hne
    · rfl

theorem trimRight_letters {letters : List Char} (h : ∀ c ∈ letters, isWord c = true) :
    trimRight letters = letters := by
  induction letters with
  | nil => rfl
  | cons c rest ih =>
    rw [List.forall_mem_cons] at h
    rw [trimRight, ih h.2]
    cases rest with
    | nil => simp [isBlank_of_isWord h.1]
    | cons d others => rfl

/-- A wording ends in a term, which has no blank. -/
theorem trimRight_spell (f : Link → List Char) (t : Term) (ls : List (Link × Term)) :
    trimRight (spell f t ls) = spell f t ls := by
  induction ls generalizing t with
  | nil => exact trimRight_letters t.isWord
  | cons first rest ih =>
    obtain ⟨l, u⟩ := first
    obtain ⟨c, s, hspell, -⟩ := exists_cons_spell f u rest
    rw [spell, ← List.append_assoc]
    exact trimRight_append (ih u) (by simp [hspell])

theorem trim_append_spell (front : List Char) {f : Link → List Char} {t : Term}
    {ls : List (Link × Term)} (h : trimLeft (front ++ spell f t ls) = front ++ spell f t ls) :
    trim (front ++ spell f t ls) = front ++ spell f t ls := by
  obtain ⟨c, s, hspell, -⟩ := exists_cons_spell f t ls
  rw [trim, h]
  exact trimRight_append (trimRight_spell f t ls) (by simp [hspell])

theorem trimLeft_wording (w : Wording) : trimLeft (w.lead ++ spell Link.text w.first w.others) =
    w.lead ++ spell Link.text w.first w.others := by
  rw [Wording.lead]
  match w.negation with
  | none =>
    obtain ⟨c, s, hspell, hc⟩ := exists_cons_spell Link.text w.first w.others
    rw [List.nil_append, hspell, trimLeft_cons (isBlank_of_isWord hc)]
  | some ⟨letters, hletters⟩ =>
    obtain ⟨x, y, z, rfl⟩ := exists_letters hletters
    exact trimLeft_cons (isBlank_of_isWord (isWord_of_isInAnyCase hletters List.mem_cons_self)) _

/-- The sign at the front takes the gap of a `not` along. -/
theorem tighten_signed (w : Wording) (k : Connector) :
    tighten false (k.sign :: ((if w.negation.isSome then [' '] else []) ++
      spell (fun l => l.allSigned.text) w.first w.others)) =
      k.sign :: spell (fun l => [l.mark]) w.first w.others := by
  obtain ⟨c, s, hspell, hc⟩ := exists_cons_spell (fun l => l.allSigned.text) w.first w.others
  have hstart : tighten true (spell (fun l => l.allSigned.text) w.first w.others) =
      spell (fun l => [l.mark]) w.first w.others := by
    rw [← tighten_spell, hspell, tighten_word hc, tighten_word hc]
  rw [← hstart]
  cases w.negation.isSome <;> cases k <;> rfl

end Spacing

/-- The query of a wording has a sign at the front, which says whether a `not` stood there, and a space
or the sign of the connector for every link. -/
theorem booleanQuery?_text (w : Wording) : booleanQuery? w.text = some w.query := by
  obtain ⟨c, s, hspell, hc⟩ := exists_cons_spell (fun l => [l.mark]) w.first w.others
  have htext := trim_append_spell w.lead (trimLeft_wording w)
  have hquery : trim (w.leading.sign :: spell (fun l => [l.mark]) w.first w.others) =
      w.leading.sign :: spell (fun l => [l.mark]) w.first w.others := by
    refine trim_append_spell [w.leading.sign] ?_
    cases w.leading <;> rfl
  have hsome : ((w.lead ++ spell Link.text w.first w.others).isEmpty ||
      (w.leading.sign :: spell (fun l => [l.mark]) w.first w.others).all isSign) = false := by
    obtain ⟨d, rest, htext, -⟩ := exists_cons_spell Link.text w.first w.others
    simp [hspell, htext, isSign_of_isWord hc]
  rw [booleanQuery?, Wording.text, String.toList_ofList, htext, leadingSign_wording, signed_wording,
    tighten_signed, hquery, hsome]
  rfl

example : booleanQuery? "NOT candy and Andes not a - b" = some "-candy+Andes-a-b" := by
  decide +kernel

end ComputedField.Filter
