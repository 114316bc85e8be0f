import ComputedField.Proofs.Query.Completeness
import ComputedField.Proofs.Query.FromRoot

/-!
# Reading two token lists side by side

Two lists of tokens that differ in little are read in the same way. What they have in common is laid
down by a relation between what is left of them, which each token either passes on or ends. One lemma
for each reader then carries the relation from what is ahead of the reader to what it leaves behind, and
the two results are alike.
-/

namespace ComputedField.Query

/-- Which token lists are read side by side. -/
structure Pairing where
  /-- What is left of two lists, inside so many brackets. -/
  near : Nat → List Token → List Token → Prop
  /-- What is left behind a parenthesis where one list has a token more. -/
  parted : Nat → List Token → List Token → Prop
  /-- The levels that the second reader has in addition. -/
  spare : Nat
  /-- The number of tokens that the first reader has to leave. -/
  least : Nat

namespace Pairing

/-- What is left of two lists after the same token. -/
def Behind (p : Pairing) (k : Nat) (t : Token) (ts us : List Token) : Prop :=
  match t with
  | .openParen => p.near k ts us ∨ p.parted k ts us
  | .openBracket => p.near (k + 1) ts us
  | .closeBracket => ∀ j, k = j + 1 → p.near j ts us
  | _ => p.near k ts us

/-- Where the first reading has a result, so has the second, and they leave what goes together. -/
def Agree (p : Pairing) (k : Nat) {α β : Type} {m n : Nat} (related : α → β → Prop)
    (x : Except Error (α × Rest m)) (y : Except Error (β × Rest n)) : Prop :=
  ∀ ⦃a r⦄, x = .ok (a, r) → p.least ≤ r.tokens.length →
    ∃ b s, y = .ok (b, s) ∧ related a b ∧ p.near k r.tokens s.tokens ∧ s.levels = r.levels + p.spare

/-- Two readers that agree on lists that go together. -/
def Follows (p : Pairing) {α : Type} {bound : List Token → Nat} (related : Nat → α → α → Prop)
    (f g : (tokens : List Token) → Nat → Except Error (α × Rest (bound tokens))) : Prop :=
  ∀ ⦃k ts us l m⦄, p.near k ts us → m = l + p.spare → p.Agree k (related k) (f ts l) (g us m)

/-- Two readers of expressions that agree behind a parenthesis too. -/
def Couples (p : Pairing) (f g : Parser Expr) : Prop :=
  ∀ ⦃k ts us l m⦄, p.near k ts us ∨ p.parted k ts us → m = l + p.spare →
    p.Agree k (Alike k) (f ts l) (g us m)

end Pairing

def BeginsPath (tokens : List Token) : Prop :=
  tokens.head? ≠ some (.operator (.arith .sub)) ∧ tokens.head? ≠ some .closeParen

/-- What is left of two lists is kept up by every token, except for a closing parenthesis that must not
be read. -/
structure Pairing.Lawful (p : Pairing) : Prop where
  cons : ∀ {k t ts us}, p.near k (t :: ts) us →
    (t = .closeParen ∧ ts.length < p.least) ∨ ∃ vs, us = t :: vs ∧ p.Behind k t ts vs
  head : ∀ {k t ts us}, p.near k ts (t :: us) → ∃ vs, ts = t :: vs
  begins : ∀ {k ts us}, p.parted k ts us → BeginsPath ts ∧ BeginsPath us
  path : ∀ {k ts us}, p.parted k ts us → ∀ depth ⦃l m⦄, m = l + p.spare →
    p.Agree k (Alike k) (path (expression depth) ts l) (path (expression (depth + p.spare)) us m)

section Lockstep

variable {p : Pairing} {k l m : Nat} {t : Token} {ts us : List Token} {f g inner other : Parser Expr}

theorem Pairing.Lawful.next (hp : p.Lawful) (h : p.near k (t :: ts) us) (ht : t ≠ .closeParen) :
    ∃ vs, us = t :: vs ∧ p.Behind k t ts vs :=
  (hp.cons h).resolve_left fun hclose => ht hclose.1

/-- What does not stand ahead of the first reader does not stand ahead of the second. -/
theorem Pairing.Lawful.ne_cons (hp : p.Lawful) (h : p.near k ts us) (hts : ∀ rest, ts ≠ t :: rest)
    (rest : List Token) : us ≠ t :: rest := by
  rintro rfl
  obtain ⟨vs, rfl⟩ := hp.head h
  exact hts vs rfl

/-- A token that both lists have is read from both. -/
theorem agree_expect {expected : Expected} (hm : m = l + p.spare)
    (h : ∀ rest, ts = t :: rest → p.least ≤ rest.length → ∃ vs, us = t :: vs ∧ p.near k rest vs) :
    p.Agree k Eq (expect t expected ts l) (expect t expected us m) := by
  intro a r hr hleast
  cases ts with
  | nil => cases hr
  | cons u rest =>
    rw [expect] at hr
    split at hr
    · rename_i hu
      cases hr
      obtain ⟨vs, rfl, hvs⟩ := h rest (by rw [hu]) hleast
      rw [expect, if_pos rfl]
      exact ⟨_, _, rfl, rfl, hvs, hm⟩
    · cases hr

theorem agree_closeParen (hp : p.Lawful) (h : p.near k ts us) (hm : m = l + p.spare)
    {expected : Expected} :
    p.Agree k Eq (expect .closeParen expected ts l) (expect .closeParen expected us m) := by
  refine agree_expect hm fun rest hts hleast => ?_
  subst hts
  exact (hp.cons h).resolve_left fun hclose => absurd hclose.2 (Nat.not_lt.mpr hleast)

theorem agree_closeBracket (hp : p.Lawful) (h : p.near (k + 1) ts us) (hm : m = l + p.spare)
    {expected : Expected} :
    p.Agree k Eq (expect .closeBracket expected ts l) (expect .closeBracket expected us m) := by
  refine agree_expect hm fun rest hts _ => ?_
  subst hts
  obtain ⟨vs, hus, hvs⟩ := hp.next h (by simp)
  exact ⟨vs, hus, hvs k rfl⟩

section Steps

theorem follows_axis (hp : p.Lawful) : p.Follows (fun _ => Eq) axis axis := by
  intro k ts us l m hnear hm a r hr hleast
  fun_cases axis ts l with
  | case1 rest levels =>
    cases hr
    obtain ⟨vs, rfl, hvs⟩ := hp.next hnear (by simp)
    exact ⟨_, _, rfl, rfl, hvs, hm⟩
  | case2 word rest levels b hb =>
    rw [axis, hb] at hr
    cases hr
    obtain ⟨vs, rfl, hvs⟩ := hp.next hnear (by simp)
    obtain ⟨ws, rfl, hws⟩ := hp.next hvs (by simp)
    rw [axis, hb]
    exact ⟨_, _, rfl, rfl, hws, hm⟩
  | case3 word rest levels hb =>
    rw [axis, hb] at hr
    cases hr
  | case4 tokens levels hat hnamed =>
    rw [axis] at hr
    · cases hr
      rw [axis]
      · exact ⟨_, _, rfl, rfl, hnear, hm⟩
      · exact hp.ne_cons hnear hat
      · rintro word rest rfl
        obtain ⟨vs, rfl⟩ := hp.head hnear
        obtain ⟨ws, hws, hvs⟩ := hp.next hnear (by simp)
        cases hws
        exact hp.ne_cons hvs (fun tail he => hnamed word tail (by rw [he])) rest rfl
    · exact hat
    · exact hnamed

theorem follows_nodeTest (hp : p.Lawful) : p.Follows (fun _ => Eq) nodeTest nodeTest := by
  intro k ts us l m hnear hm a r hr hleast
  fun_cases nodeTest ts l with
  | case1 rest levels =>
    cases hr
    obtain ⟨vs, rfl, hvs⟩ := hp.next hnear (by simp)
    exact ⟨_, _, rfl, rfl, hvs, hm⟩
  | case2 word rest levels hword =>
    rw [nodeTest, if_pos hword] at hr
    obtain ⟨⟨_, q⟩, hq, hr⟩ := ok_of_bind hr
    cases hr
    obtain ⟨vs, rfl, hvs⟩ := hp.next hnear (by simp)
    obtain ⟨ws, rfl, hws⟩ := hp.next hvs (by simp)
    rcases hws with hws | hws
    · obtain ⟨_, q', hq', -, hnear, hm⟩ := agree_closeParen hp hws hm hq hleast
      rw [nodeTest, if_pos hword]
      exact ⟨_, _, bind_of_ok hq' rfl, rfl, hnear, hm⟩
    · obtain ⟨_, hclose, rfl⟩ := spells_expect _ _ _ _ _ _ hq
      exact absurd (by rw [hclose]; rfl) (hp.begins hws).1.2
  | case3 word rest levels hword =>
    rw [nodeTest, if_neg hword] at hr
    cases hr
  | case4 word rest levels hrest =>
    rw [nodeTest] at hr
    · cases hr
      obtain ⟨vs, rfl, hvs⟩ := hp.next hnear (by simp)
      rw [nodeTest]
      · exact ⟨_, _, rfl, rfl, hvs, hm⟩
      · exact hp.ne_cons hvs hrest
    · exact hrest
  | case5 tokens levels hstar htest hname =>
    rw [nodeTest] at hr
    · cases hr
    · exact hstar
    · exact htest
    · exact hname

/-- Inside predicates the two readings come to the same expressions. -/
theorem follows_predicates (hp : p.Lawful) (h : p.Couples inner other) :
    p.Follows (fun _ => Eq) (predicates inner) (predicates other) := by
  intro k ts us l m hnear hm a r hr hleast
  fun_induction predicates inner ts l generalizing us m a with
  | case1 rest levels ih =>
    obtain ⟨⟨e, q⟩, hq, hr⟩ := ok_of_bind hr
    obtain ⟨⟨_, z⟩, hz, hr⟩ := ok_of_bind hr
    obtain ⟨⟨es, y⟩, hy, hr⟩ := ok_of_bind hr
    cases hr
    have := z.fewer
    have := y.fewer
    simp only [Rest.tokens_widen] at hleast
    obtain ⟨vs, rfl, hvs⟩ := hp.next hnear (by simp)
    obtain ⟨e', q', hq', he, hnear, hm⟩ := h (.inl hvs) hm hq (by omega)
    obtain ⟨_, z', hz', -, hnear, hm⟩ := agree_closeBracket hp hnear hm hz (by omega)
    obtain ⟨es', y', hy', rfl, hnear, hm⟩ := ih _ _ hnear hm hy hleast
    cases he.eq
    rw [predicates]
    exact ⟨_, _, bind_of_ok hq' (bind_of_ok hz' (bind_of_ok hy' rfl)), rfl, hnear, hm⟩
  | case2 tokens levels hbracket =>
    cases hr
    rw [predicates]
    · exact ⟨_, _, rfl, rfl, hnear, hm⟩
    · exact hp.ne_cons hnear hbracket

theorem follows_step (hp : p.Lawful) (h : p.Couples inner other) :
    p.Follows (fun _ => Eq) (step inner) (step other) := by
  intro k ts us l m hnear hm a r hr hleast
  fun_cases step inner ts l with
  | case1 rest levels =>
    cases hr
    obtain ⟨vs, rfl, hvs⟩ := hp.next hnear (by simp)
    exact ⟨_, _, rfl, rfl, hvs, hm⟩
  | case2 rest levels =>
    cases hr
    obtain ⟨vs, rfl, hvs⟩ := hp.next hnear (by simp)
    exact ⟨_, _, rfl, rfl, hvs, hm⟩
  | case3 tokens levels hdot hdoubleDot =>
    rw [step] at hr
    · obtain ⟨⟨a, q⟩, hq, hr⟩ := ok_of_bind hr
      obtain ⟨⟨t, z⟩, hz, hr⟩ := ok_of_bind hr
      obtain ⟨⟨ps, y⟩, hy, hr⟩ := ok_of_bind hr
      cases hr
      have := z.fewer
      have := y.fewer
      simp only [Rest.tokens_widen] at hleast
      have hdot := hp.ne_cons hnear hdot
      have hdoubleDot := hp.ne_cons hnear hdoubleDot
      obtain ⟨_, q', hq', rfl, hnear, hm⟩ := follows_axis hp hnear hm hq (by omega)
      obtain ⟨_, z', hz', rfl, hnear, hm⟩ := follows_nodeTest hp hnear hm hz (by omega)
      obtain ⟨_, y', hy', rfl, hnear, hm⟩ := follows_predicates hp h hnear hm hy hleast
      rw [step]
      · exact ⟨_, _, bind_of_ok hq' (bind_of_ok hz' (bind_of_ok hy' rfl)), rfl, hnear, hm⟩
      · exact hdot
      · exact hdoubleDot
    · exact hdot
    · exact hdoubleDot

theorem follows_stepsAfter (hp : p.Lawful) (h : p.Couples inner other) :
    p.Follows (fun _ => Eq) (stepsAfter inner) (stepsAfter other) := by
  intro k ts us l m hnear hm a r hr hleast
  fun_induction stepsAfter inner ts l generalizing us m a with
  | case1 rest levels ih | case2 rest levels ih =>
    obtain ⟨⟨first, q⟩, hq, hr⟩ := ok_of_bind hr
    obtain ⟨⟨others, z⟩, hz, hr⟩ := ok_of_bind hr
    cases hr
    have := z.fewer
    simp only [Rest.tokens_widen] at hleast
    obtain ⟨vs, rfl, hvs⟩ := hp.next hnear (by simp)
    obtain ⟨_, q', hq', rfl, hnear, hm⟩ := follows_step hp h hvs hm hq (by omega)
    obtain ⟨_, z', hz', rfl, hnear, hm⟩ := ih _ hnear hm hz hleast
    rw [stepsAfter]
    exact ⟨_, _, bind_of_ok hq' (bind_of_ok hz' rfl), rfl, hnear, hm⟩
  | case3 tokens levels hslash hdoubleSlash =>
    cases hr
    rw [stepsAfter]
    · exact ⟨_, _, rfl, rfl, hnear, hm⟩
    · exact hp.ne_cons hnear hslash
    · exact hp.ne_cons hnear hdoubleSlash

/-- Both readings come to the same steps. -/
theorem follows_steps (hp : p.Lawful) (h : p.Couples inner other) :
    p.Follows (fun _ => Eq) (steps inner) (steps other) := by
  intro k ts us l m hnear hm a r hr hleast
  obtain ⟨⟨first, q⟩, hq, hr⟩ := ok_of_bind hr
  obtain ⟨⟨others, z⟩, hz, hr⟩ := ok_of_bind hr
  cases hr
  have := z.fewer
  simp only [Rest.tokens_widen] at hleast
  obtain ⟨_, q', hq', rfl, hnear, hm⟩ := follows_step hp h hnear hm hq (by omega)
  obtain ⟨_, z', hz', rfl, hnear, hm⟩ := follows_stepsAfter hp h hnear hm hz hleast
  exact ⟨_, _, bind_of_ok hq' (bind_of_ok hz' rfl), rfl, hnear, hm⟩

end Steps

section Paths

theorem follows_argumentsAfter (hp : p.Lawful) (h : p.Couples inner other) :
    p.Follows AlikeAll (argumentsAfter inner) (argumentsAfter other) := by
  intro k ts us l m hnear hm a r hr hleast
  fun_induction argumentsAfter inner ts l generalizing us m a with
  | case1 rest levels ih =>
    obtain ⟨⟨e, q⟩, hq, hr⟩ := ok_of_bind hr
    obtain ⟨⟨es, z⟩, hz, hr⟩ := ok_of_bind hr
    cases hr
    have := z.fewer
    simp only [Rest.tokens_widen] at hleast
    obtain ⟨vs, rfl, hvs⟩ := hp.next hnear (by simp)
    obtain ⟨_, q', hq', he, hnear, hm⟩ := h (.inl hvs) hm hq (by omega)
    obtain ⟨_, z', hz', hes, hnear, hm⟩ := ih _ hnear hm hz hleast
    rw [argumentsAfter]
    exact ⟨_, _, bind_of_ok hq' (bind_of_ok hz' rfl), he.cons hes, hnear, hm⟩
  | case2 tokens levels hcomma =>
    cases hr
    rw [argumentsAfter]
    · exact ⟨_, _, rfl, .refl k [], hnear, hm⟩
    · exact hp.ne_cons hnear hcomma

/-- Arguments are read behind a parenthesis, and what closes them is left. -/
theorem agree_arguments (hp : p.Lawful) (h : p.Couples inner other)
    (hahead : p.near k ts us ∨ p.parted k ts us) (hm : m = l + p.spare)
    (hclose : ∀ rest, ts = .closeParen :: rest → p.least ≤ rest.length) :
    p.Agree k (AlikeAll k) (arguments inner ts l) (arguments other us m) := by
  intro a r hr hleast
  fun_cases arguments inner ts l with
  | case1 rest levels =>
    cases hr
    rcases hahead with hnear | hparted
    · obtain ⟨vs, rfl, -⟩ := (hp.cons hnear).resolve_left fun hend =>
        absurd hend.2 (Nat.not_lt.mpr (hclose rest rfl))
      exact ⟨_, _, rfl, .refl k [], hnear, hm⟩
    · exact absurd rfl (hp.begins hparted).1.2
  | case2 tokens levels hne =>
    rw [arguments] at hr
    · obtain ⟨⟨e, q⟩, hq, hr⟩ := ok_of_bind hr
      obtain ⟨⟨es, z⟩, hz, hr⟩ := ok_of_bind hr
      cases hr
      have := z.fewer
      simp only [Rest.tokens_widen] at hleast
      obtain ⟨_, q', hq', he, hnear, hm⟩ := h hahead hm hq (by omega)
      obtain ⟨_, z', hz', hes, hnear, hm⟩ := follows_argumentsAfter hp h hnear hm hz hleast
      rw [arguments]
      · exact ⟨_, _, bind_of_ok hq' (bind_of_ok hz' rfl), he.cons hes, hnear, hm⟩
      · rintro rest rfl
        rcases hahead with hahead | hahead
        · exact hp.ne_cons hahead hne rest rfl
        · exact (hp.begins hahead).2.2 rfl
    · exact hne

/-- Arguments may be anchored in one list and not in the other. -/
theorem agree_call (hp : p.Lawful) (h : p.Couples inner other)
    (hahead : p.near k ts us ∨ p.parted k ts us) (hm : m = l + p.spare) (word : String) :
    p.Agree k (Alike k) (call inner word ts l) (call other word us m) := by
  intro a r hr hleast
  unfold call at hr
  split at hr
  · cases hr
  · rename_i f hf
    obtain ⟨⟨es, q⟩, hq, hr⟩ := ok_of_bind hr
    obtain ⟨⟨_, z⟩, hz, hr⟩ := ok_of_bind hr
    dsimp only at hr
    split at hr
    · rename_i harity
      cases hr
      have := z.fewer
      simp only [Rest.tokens_widen] at hleast
      obtain ⟨_, hq', rfl⟩ := spells_expect _ _ _ _ _ _ hz
      have hclose : ∀ rest, ts = .closeParen :: rest → p.least ≤ rest.length := by
        rintro rest rfl
        rw [arguments] at hq
        cases hq
        have hrest : rest = z.tokens := (List.cons.inj hq').2
        rw [hrest]
        exact hleast
      obtain ⟨_, q', hq', hes, hnear, hm⟩ := agree_arguments hp h hahead hm hclose hq (by omega)
      obtain ⟨_, z', hz', -, hnear, hm⟩ := agree_closeParen hp hnear hm hz hleast
      rw [hes.length_eq] at harity
      simp only [call, hf]
      exact ⟨_, _, bind_of_ok hq' (bind_of_ok hz' (if_pos harity)), hes.call f, hnear, hm⟩
    · cases hr

theorem follows_primary (hp : p.Lawful) (h : p.Couples inner other) :
    p.Follows Alike (primary inner) (primary other) := by
  intro k ts us l m hnear hm a r hr hleast
  fun_cases primary inner ts l with
  | case1 rest levels =>
    obtain ⟨⟨e, q⟩, hq, hr⟩ := ok_of_bind hr
    obtain ⟨⟨_, z⟩, hz, hr⟩ := ok_of_bind hr
    cases hr
    have := z.fewer
    simp only [Rest.tokens_widen] at hleast
    obtain ⟨vs, rfl, hvs⟩ := hp.next hnear (by simp)
    obtain ⟨_, q', hq', he, hnear, hm⟩ := h hvs hm hq (by omega)
    obtain ⟨_, z', hz', -, hnear, hm⟩ := agree_closeParen hp hnear hm hz hleast
    exact ⟨_, _, bind_of_ok hq' (bind_of_ok hz' rfl), he, hnear, hm⟩
  | case2 s rest levels =>
    cases hr
    obtain ⟨vs, rfl, hvs⟩ := hp.next hnear (by simp)
    exact ⟨_, _, rfl, .refl k _, hvs, hm⟩
  | case3 x rest levels =>
    cases hr
    obtain ⟨vs, rfl, hvs⟩ := hp.next hnear (by simp)
    exact ⟨_, _, rfl, .refl k _, hvs, hm⟩
  | case4 word rest levels =>
    obtain ⟨⟨e, q⟩, hq, hr⟩ := ok_of_bind hr
    cases hr
    obtain ⟨vs, rfl, hvs⟩ := hp.next hnear (by simp)
    obtain ⟨ws, rfl, hws⟩ := hp.next hvs (by simp)
    obtain ⟨_, q', hq', he, hnear, hm⟩ := agree_call hp h hws hm word hq hleast
    exact ⟨_, _, bind_of_ok hq' rfl, he, hnear, hm⟩
  | case5 tokens levels hparen hliteral hnumber hcall =>
    rw [primary] at hr
    · cases hr
    · exact hparen
    · exact hliteral
    · exact hnumber
    · exact hcall

theorem follows_joinedSteps (hp : p.Lawful) (h : p.Couples inner other) :
    p.Follows (fun _ => Eq) (joinedSteps inner) (joinedSteps other) := by
  intro k ts us l m hnear hm a r hr hleast
  fun_cases joinedSteps inner ts l with
  | case1 rest levels | case2 rest levels =>
    obtain ⟨⟨ss, q⟩, hq, hr⟩ := ok_of_bind hr
    cases hr
    obtain ⟨vs, rfl, hvs⟩ := hp.next hnear (by simp)
    obtain ⟨_, q', hq', rfl, hnear, hm⟩ := follows_steps hp h hvs hm hq hleast
    exact ⟨_, _, bind_of_ok hq' rfl, rfl, hnear, hm⟩
  | case3 tokens levels hslash hdoubleSlash =>
    rw [joinedSteps] at hr
    · cases hr
      rw [joinedSteps]
      · exact ⟨_, _, rfl, rfl, hnear, hm⟩
      · exact hp.ne_cons hnear hslash
      · exact hp.ne_cons hnear hdoubleSlash
    · exact hslash
    · exact hdoubleSlash

theorem follows_filtered (hp : p.Lawful) (h : p.Couples inner other) :
    p.Follows Alike (filtered inner) (filtered other) := by
  intro k ts us l m hnear hm a r hr hleast
  obtain ⟨⟨e, q⟩, hq, hr⟩ := ok_of_bind hr
  obtain ⟨⟨ps, z⟩, hz, hr⟩ := ok_of_bind hr
  obtain ⟨⟨ss, y⟩, hy, hr⟩ := ok_of_bind hr
  cases hr
  have := z.fewer
  have := y.fewer
  simp only [Rest.tokens_widen] at hleast
  obtain ⟨_, q', hq', he, hnear, hm⟩ := follows_primary hp h hnear hm hq (by omega)
  obtain ⟨_, z', hz', rfl, hnear, hm⟩ := follows_predicates hp h hnear hm hz (by omega)
  obtain ⟨_, y', hy', rfl, hnear, hm⟩ := follows_joinedSteps hp h hnear hm hy hleast
  refine ⟨_, _, bind_of_ok hq' (bind_of_ok hz' (bind_of_ok hy' rfl)), ?_, hnear, hm⟩
  split
  · exact he
  · exact he.filter ps ss

/-- Whether a step comes next does not depend on the list. -/
theorem Pairing.Lawful.startsStep_eq (hp : p.Lawful) (h : p.near k ts us) :
    startsStep ts = startsStep us := by
  cases ts with
  | nil =>
    cases us with
    | nil => rfl
    | cons u us =>
      obtain ⟨vs, hvs⟩ := hp.head h
      cases hvs
  | cons t ts =>
    rcases hp.cons h with ⟨rfl, -⟩ | ⟨vs, rfl, hvs⟩
    · cases us with
      | nil => rfl
      | cons u us =>
        obtain ⟨vs, hvs⟩ := hp.head h
        cases hvs
        rfl
    · cases t with
      | name word =>
        by_cases hparen : ∃ rest, ts = .openParen :: rest
        · obtain ⟨rest, rfl⟩ := hparen
          obtain ⟨ws, rfl, -⟩ := hp.next hvs (by simp)
          rfl
        · have hts : ∀ rest, ts ≠ .openParen :: rest := fun rest he => hparen ⟨rest, he⟩
          rw [startsStep_name hts, startsStep_name (hp.ne_cons hvs hts)]
      | _ => rfl

/-- Paths are read alike in each of their forms. -/
theorem follows_path (hp : p.Lawful) (h : p.Couples inner other) :
    p.Follows Alike (path inner) (path other) := by
  intro k ts us l m hnear hm a r hr hleast
  fun_cases path inner ts l with
  | case1 rest levels hstep =>
    rw [path, if_pos hstep] at hr
    obtain ⟨⟨ss, q⟩, hq, hr⟩ := ok_of_bind hr
    cases hr
    obtain ⟨vs, rfl, hvs⟩ := hp.next hnear (by simp)
    have hstep' := hp.startsStep_eq hvs ▸ hstep
    obtain ⟨_, q', hq', rfl, hnear, hm⟩ := follows_steps hp h hvs hm hq hleast
    rw [path, if_pos hstep']
    exact ⟨_, _, bind_of_ok hq' rfl, .refl k _, hnear, hm⟩
  | case2 rest levels hstep =>
    rw [path, if_neg hstep] at hr
    cases hr
    obtain ⟨vs, rfl, hvs⟩ := hp.next hnear (by simp)
    rw [path, if_neg (hp.startsStep_eq hvs ▸ hstep)]
    exact ⟨_, _, rfl, .refl k _, hvs, hm⟩
  | case3 rest levels =>
    obtain ⟨⟨ss, q⟩, hq, hr⟩ := ok_of_bind hr
    cases hr
    obtain ⟨vs, rfl, hvs⟩ := hp.next hnear (by simp)
    obtain ⟨_, q', hq', rfl, hnear, hm⟩ := follows_steps hp h hvs hm hq hleast
    exact ⟨_, _, bind_of_ok hq' rfl, .refl k _, hnear, hm⟩
  | case4 tokens levels hslash hdoubleSlash hstep =>
    rw [path, if_pos hstep] at hr
    · obtain ⟨⟨ss, q⟩, hq, hr⟩ := ok_of_bind hr
      cases hr
      have hstep' := hp.startsStep_eq hnear ▸ hstep
      have hslash := hp.ne_cons hnear hslash
      have hdoubleSlash := hp.ne_cons hnear hdoubleSlash
      obtain ⟨_, q', hq', rfl, hnear, hm⟩ := follows_steps hp h hnear hm hq hleast
      rw [path, if_pos hstep']
      · exact ⟨_, _, bind_of_ok hq' rfl, .refl k _, hnear, hm⟩
      · exact hslash
      · exact hdoubleSlash
    · exact hslash
    · exact hdoubleSlash
  | case5 tokens levels hslash hdoubleSlash hstep =>
    rw [path, if_neg hstep] at hr
    · rw [path, if_neg (hp.startsStep_eq hnear ▸ hstep)]
      · exact follows_filtered hp h hnear hm hr hleast
      · exact hp.ne_cons hnear hslash
      · exact hp.ne_cons hnear hdoubleSlash
    · exact hslash
    · exact hdoubleSlash

end Paths

section Operators

variable {rank : Nat}

theorem Pairing.Lawful.operatorAt?_eq_none (hp : p.Lawful) (hnear : p.near k ts us)
    (h : operatorAt? rank ts = none) : operatorAt? rank us = none := by
  cases us with
  | nil => rfl
  | cons u us =>
    obtain ⟨vs, rfl⟩ := hp.head hnear
    cases u <;> exact h

/-- Both chains go on or end at the same tokens. -/
theorem agree_chainAfter (hp : p.Lawful) (h : p.Couples f g) {e e' : Expr} (he : Alike k e e')
    (hnear : p.near k ts us) (hm : m = l + p.spare) :
    p.Agree k (Alike k) (chainAfter rank f e ts l) (chainAfter rank g e' us m) := by
  intro a r hr hleast
  fun_induction chainAfter rank f e ts l generalizing us m a e' with
  | case1 left levels =>
    cases hr
    rw [chainAfter_of_operatorAt? (hp.operatorAt?_eq_none hnear rfl)]
    exact ⟨_, _, rfl, he, hnear, hm⟩
  | case2 left t rest levels hop =>
    cases hr
    rw [chainAfter_of_operatorAt? (hp.operatorAt?_eq_none hnear hop)]
    exact ⟨_, _, rfl, he, hnear, hm⟩
  | case3 left t rest op hop => cases hr
  | case4 left t rest op levels hop ih =>
    obtain ⟨⟨right, q⟩, hq, hr⟩ := ok_of_bind hr
    obtain ⟨⟨e, z⟩, hz, hr⟩ := ok_of_bind hr
    cases hr
    have := z.fewer
    simp only [Rest.tokens_widen] at hleast
    obtain ⟨rfl, hrank⟩ := operatorAt?_eq_some hop
    obtain ⟨vs, rfl, hvs⟩ := hp.next hnear (by simp)
    obtain rfl : m = levels + p.spare + 1 := by omega
    obtain ⟨_, q', hq', hright, hnear, hm⟩ := h (.inl hvs) rfl hq (by omega)
    obtain ⟨_, z', hz', he, hnear, hm⟩ := ih _ _ (he.binary op hright) hnear hm hz hleast
    have hop : operatorAt? rank (.operator op :: vs) = some op := if_pos hrank
    rw [chainAfter.eq_4 _ _ _ _ _ _ _ hop]
    exact ⟨_, _, bind_of_ok hq' (bind_of_ok hz' rfl), he, hnear, hm⟩

/-- Operands that are read alike make chains that are. -/
theorem couples_chain (rank : Nat) (hp : p.Lawful) (h : p.Couples f g) :
    p.Couples (chain rank f) (chain rank g) := by
  intro k ts us l m hahead hm a r hr hleast
  obtain ⟨⟨left, q⟩, hq, hr⟩ := ok_of_bind hr
  obtain ⟨⟨e, z⟩, hz, hr⟩ := ok_of_bind hr
  cases hr
  have := z.fewer
  simp only [Rest.tokens_widen] at hleast
  obtain ⟨_, q', hq', hleft, hnear, hm⟩ := h hahead hm hq (by omega)
  obtain ⟨_, z', hz', he, hnear, hm⟩ := agree_chainAfter hp h hleft hnear hm hz hleast
  exact ⟨_, _, bind_of_ok hq' (bind_of_ok hz' rfl), he, hnear, hm⟩

theorem couples_unary (hp : p.Lawful) (h : p.Couples f g) : p.Couples (unary f) (unary g) := by
  intro k ts us l m hahead hm a r hr hleast
  fun_induction unary f ts l generalizing us m a with
  | case1 rest => cases hr
  | case2 rest levels ih =>
    obtain ⟨⟨e, q⟩, hq, hr⟩ := ok_of_bind hr
    cases hr
    rcases hahead with hnear | hparted
    · obtain ⟨vs, rfl, hvs⟩ := hp.next hnear (by simp)
      obtain rfl : m = levels + p.spare + 1 := by omega
      obtain ⟨_, q', hq', he, hnear, hm⟩ := ih (.inl hvs) rfl hq hleast
      exact ⟨_, _, bind_of_ok hq' rfl, he.negate, hnear, hm⟩
    · exact absurd rfl (hp.begins hparted).1.1
  | case3 tokens levels hminus =>
    rw [unary]
    · exact h hahead hm hr hleast
    · rintro rest rfl
      rcases hahead with hnear | hparted
      · exact hp.ne_cons hnear hminus rest rfl
      · exact (hp.begins hparted).2.1 rfl

theorem couples_operators (hp : p.Lawful) (h : p.Couples (path inner) (path other)) :
    p.Couples (operators inner) (operators other) := by
  have hunary := couples_unary hp (couples_chain BinaryOp.union.rank hp h)
  have hsum := couples_chain 4 hp (couples_chain 5 hp hunary)
  have hequality := couples_chain 2 hp (couples_chain 3 hp hsum)
  exact couples_chain 0 hp (couples_chain 1 hp hequality)

theorem couples_nested (h : p.Couples f g) : p.Couples (nested f) (nested g) := by
  intro k ts us l m hahead hm a r hr hleast
  cases l with
  | zero => cases hr
  | succ inside =>
    obtain ⟨⟨e, q⟩, hq, hr⟩ := ok_of_bind hr
    cases hr
    obtain rfl : m = inside + p.spare + 1 := by omega
    obtain ⟨_, q', hq', he, hnear, -⟩ := h hahead rfl hq hleast
    exact ⟨_, _, bind_of_ok hq' rfl, he, hnear, by simp only; omega⟩

end Operators

/-- Expressions are read alike inside any number of brackets. -/
theorem couples_expression (hp : p.Lawful) (depth : Nat) :
    p.Couples (expression depth) (expression (depth + p.spare)) := by
  induction depth with
  | zero =>
    intro k ts us l m hahead hm a r hr
    cases hr
  | succ depth ih =>
    have hpath : p.Couples (path (expression depth)) (path (expression (depth + p.spare))) := by
      intro k ts us l m hahead hm
      rcases hahead with hnear | hparted
      · exact follows_path hp ih hnear hm
      · exact hp.path hparted depth hm
    rw [Nat.add_right_comm]
    exact couples_nested (couples_operators hp hpath)

end Lockstep

end ComputedField.Query
