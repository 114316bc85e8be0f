import ComputedField.Proofs.Decimal.Double
import ComputedField.Query.Compare

/-!
# Comparisons with their sides exchanged

A comparison says the same with its sides exchanged and its operator turned round. Of atoms that holds
because equality does not depend on the order, by truth values, numbers or texts; of nodes because it
does not matter on which side a node that fits is looked for first.
-/

namespace ComputedField.Query

open Markup (Document)

/-- Equality does not depend on the side. -/
theorem Atom.equals_comm (a b : Atom) : a.equals b = b.equals a := by
  cases a with
  | truth s => cases b <;> exact Bool.beq_comm
  | number x =>
    cases b with
    | truth t => exact Bool.beq_comm
    | number y => exact Decimal.beq_comm x y
    | text t => exact Decimal.beq_comm x (numberOf t)
  | text s =>
    cases b with
    | truth t => exact Bool.beq_comm
    | number y => exact Decimal.beq_comm (numberOf s) y
    | text t => exact BEq.comm

theorem CompareOp.atoms_flip (op : CompareOp) (a b : Atom) : op.flip.atoms b a = op.atoms a b := by
  cases op with
  | eq => exact b.equals_comm a
  | ne => exact congrArg (!·) (b.equals_comm a)
  | lt | le | gt | ge => rfl

theorem any_any_comm {α β : Type} (p : α → β → Bool) (as : List α) (bs : List β) :
    (as.any fun a => bs.any fun b => p a b) = bs.any fun b => as.any fun a => p a b := by
  rw [Bool.eq_iff_iff]
  simp only [List.any_eq_true]
  constructor
  · rintro ⟨a, ha, b, hb, h⟩
    exact ⟨b, hb, a, ha, h⟩
  · rintro ⟨b, hb, a, ha, h⟩
    exact ⟨a, ha, b, hb, h⟩

/-- With its sides exchanged, a comparison is the one by the operator turned round. -/
theorem CompareOp.values_flip (d : Document) (op : CompareOp) (l r : Value) :
    op.values d l r = op.flip.values d r l := by
  cases l with
  | nodes ms =>
    cases r with
    | nodes ns =>
      simp only [values, atoms_flip]
      exact any_any_comm _ ms ns
    | atom b =>
      -- With nodes on the right, the operator is turned round by the comparison itself.
      rw [values, values, flip_flip]
  | atom a =>
    cases r with
    | nodes ns => rfl
    | atom b => exact (op.atoms_flip a b).symm

end ComputedField.Query
