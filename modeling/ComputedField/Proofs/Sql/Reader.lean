import ComputedField.Proofs.Sql.Token

/-!
# Reading conditions

How a server reads a condition. `NOT` binds tighter than `AND` and `AND` tighter than `OR`; parentheses
stand around what is to be read as a whole. What a condition comes to depends on whether its atoms
hold, and on nothing else.
-/

namespace ComputedField.Sql

open ComputedField.Filter

inductive Operator where
  | compare (op : Comparison)
  | within
  | like
  | against
  | regexp
  deriving DecidableEq

/-- A column compared with values, which are as they were decoded. -/
structure Atom where
  column : String
  operator : Operator
  values : List Value
  deriving DecidableEq

inductive Condition where
  | constant (b : Bool)
  | atom (a : Atom)
  | not (c : Condition)
  | and (c d : Condition)
  | or (c d : Condition)
  deriving DecidableEq

namespace Condition

def holds (v : Atom → Bool) : Condition → Bool
  | .constant b => b
  | .atom a => v a
  | .not c => !c.holds v
  | .and c d => c.holds v && d.holds v
  | .or c d => c.holds v || d.holds v

def atoms : Condition → List Atom
  | .constant _ => []
  | .atom a => [a]
  | .not c => c.atoms
  | .and c d | .or c d => c.atoms ++ d.atoms

end Condition

/-- The tokens ahead, fewer than `bound`. -/
structure Rest (bound : Nat) where
  tokens : List Token
  fewer : tokens.length < bound

/-- Reads something from the tokens ahead. -/
abbrev Reader (α : Type) := (ts : List Token) → Option (α × Rest ts.length)

def values : Reader (List Value)
  | .value v :: .closeParen :: rest => some ([v], ⟨rest, by simp only [List.length_cons]; omega⟩)
  | .value v :: .comma :: rest => do
    let (vs, r) ← values rest
    have := r.fewer
    return (v :: vs, ⟨r.tokens, by simp only [List.length_cons]; omega⟩)
  | _ => none

/-- Reads a constant, or a column and what it is compared with. -/
def simple : Reader Condition
  | .keyword .yes :: rest => some (.constant true, ⟨rest, by simp⟩)
  | .keyword .no :: rest => some (.constant false, ⟨rest, by simp⟩)
  | .column name :: .comparison op :: .value v :: rest =>
    some (.atom ⟨name, .compare op, [v]⟩, ⟨rest, by simp only [List.length_cons]; omega⟩)
  | .column name :: .keyword .within :: .openParen :: rest => do
    let (vs, r) ← values rest
    have := r.fewer
    return (.atom ⟨name, .within, vs⟩, ⟨r.tokens, by simp only [List.length_cons]; omega⟩)
  | .column name :: .keyword .like :: .value (.text s) :: rest =>
    some (.atom ⟨name, .like, [.text s]⟩, ⟨rest, by simp only [List.length_cons]; omega⟩)
  | .column name :: .keyword .regexp :: .value (.text s) :: rest =>
    some (.atom ⟨name, .regexp, [.text s]⟩, ⟨rest, by simp only [List.length_cons]; omega⟩)
  | .column name :: .keyword .not :: .keyword .regexp :: .value (.text s) :: rest =>
    some (.not (.atom ⟨name, .regexp, [.text s]⟩), ⟨rest, by simp only [List.length_cons]; omega⟩)
  | .keyword .matching :: .openParen :: .column name :: .closeParen :: .keyword .against ::
      .openParen :: .value (.text s) :: .keyword .within :: .keyword .boolean :: .keyword .mode ::
      .closeParen :: rest =>
    some (.atom ⟨name, .against, [.text s]⟩, ⟨rest, by simp only [List.length_cons]; omega⟩)
  | _ => none

/-- Reads a condition in parentheses, or one that needs none. -/
def enclosed (inner : Reader Condition) : Reader Condition
  | .openParen :: rest =>
    match inner rest with
    | some (c, ⟨.closeParen :: after, fewer⟩) =>
      some (c, ⟨after, by simp only [List.length_cons] at fewer ⊢; omega⟩)
    | _ => none
  | ts => simple ts

/-- Reads a condition with any number of `NOT`s before it. -/
def negation (operand : Reader Condition) : Reader Condition
  | .keyword .not :: rest => do
    let (c, r) ← negation operand rest
    have := r.fewer
    return (.not c, ⟨r.tokens, by simp only [List.length_cons]; omega⟩)
  | ts => operand ts

inductive Connective where
  | and
  | or

namespace Connective

def keyword : Connective → Keyword
  | .and => .and
  | .or => .or

def join : Connective → Condition → Condition → Condition
  | .and => .and
  | .or => .or

end Connective

def joined (k : Connective) (operand : Reader Condition) (ts : List Token) :
    Option (Condition × Rest ts.length) :=
  match operand ts with
  | none => none
  | some (c, ⟨[], fewer⟩) => some (c, ⟨[], fewer⟩)
  | some (c, ⟨t :: after, fewer⟩) =>
    if t = .keyword k.keyword then
      have shorter : after.length < ts.length := Nat.lt_of_succ_lt fewer
      match joined k operand after with
      | none => none
      | some (d, r) => some (k.join c d, ⟨r.tokens, Nat.lt_trans r.fewer shorter⟩)
    else some (c, ⟨t :: after, fewer⟩)
termination_by ts.length

/-- Reads a condition that has so many parentheses within each other, or fewer. -/
def condition? : Nat → Reader Condition
  | 0 => fun _ => none
  | depth + 1 => joined .or (joined .and (negation (enclosed (condition? depth))))

def readCondition (s : String) : Option Condition := do
  let ts ← tokens s.toList
  let (c, r) ← condition? (ts.length + 1) ts
  if r.tokens.isEmpty then some c else none

def Gives {α : Type} {n : Nat} (x : Option (α × Rest n)) (a : α) (rest : List Token) : Prop :=
  ∃ r, x = some (a, r) ∧ r.tokens = rest

section Gives

variable {operand inner : Reader Condition} {k : Connective} {c d : Condition}
  {ts us rest : List Token} {v : Value} {vs : List Value}

theorem gives_values_one (v : Value) (rest : List Token) :
    Gives (values (.value v :: .closeParen :: rest)) [v] rest :=
  ⟨_, rfl, rfl⟩

theorem gives_values_cons (h : Gives (values ts) vs rest) :
    Gives (values (.value v :: .comma :: ts)) (v :: vs) rest := by
  obtain ⟨⟨tokens, fewer⟩, hr, rfl⟩ := h
  rw [values, hr]
  exact ⟨_, rfl, rfl⟩

theorem gives_simple_within {name : String} (h : Gives (values ts) vs rest) :
    Gives (simple (.column name :: .keyword .within :: .openParen :: ts))
      (.atom ⟨name, .within, vs⟩) rest := by
  obtain ⟨⟨tokens, fewer⟩, hr, rfl⟩ := h
  rw [simple, hr]
  exact ⟨_, rfl, rfl⟩

theorem gives_enclosed (h : Gives (inner ts) c (.closeParen :: rest)) :
    Gives (enclosed inner (.openParen :: ts)) c rest := by
  obtain ⟨⟨tokens, fewer⟩, hr, rfl⟩ := h
  rw [enclosed, hr]
  exact ⟨_, rfl, rfl⟩

theorem gives_negation (h : Gives (negation operand ts) c rest) :
    Gives (negation operand (.keyword .not :: ts)) (.not c) rest := by
  obtain ⟨⟨tokens, fewer⟩, hr, rfl⟩ := h
  rw [negation, hr]
  exact ⟨_, rfl, rfl⟩

/-- A chain ends where its connective does not follow. -/
theorem gives_joined_one (h : Gives (operand ts) c rest)
    (hrest : rest.head? ≠ some (.keyword k.keyword)) : Gives (joined k operand ts) c rest := by
  obtain ⟨⟨tokens, fewer⟩, hr, rfl⟩ := h
  rw [joined, hr]
  cases tokens with
  | nil => exact ⟨_, rfl, rfl⟩
  | cons t after =>
    have ht : t ≠ .keyword k.keyword := fun he => hrest (congrArg some he)
    dsimp only
    rw [if_neg ht]
    exact ⟨_, rfl, rfl⟩

/-- Behind a connective the chain goes on to the right. -/
theorem gives_joined_cons (h : Gives (operand ts) c (.keyword k.keyword :: us))
    (h' : Gives (joined k operand us) d rest) : Gives (joined k operand ts) (k.join c d) rest := by
  obtain ⟨⟨tokens, fewer⟩, hr, rfl⟩ := h
  obtain ⟨⟨after, fewer'⟩, hr', rfl⟩ := h'
  rw [joined, hr]
  dsimp only
  rw [if_pos rfl, hr']
  exact ⟨_, rfl, rfl⟩

end Gives

end ComputedField.Sql
