import ComputedField.Query.Syntax
import ComputedField.Query.Value

/-!
# Comparing values

Equality of two atoms compares truth values if one of them is one, else numbers if one of them is
one, and else texts; order always compares numbers. Nodes compare by their texts, and it is enough
that one of them fits; against a truth value only their presence counts.
-/

namespace ComputedField.Query

open Markup (Document NodeId)

def Atom.equals (a b : Atom) : Bool :=
  match a, b with
  | .truth _, _ | _, .truth _ => a.toTruth == b.toTruth
  | .number _, _ | _, .number _ => a.toNumber == b.toNumber
  | .text s, .text t => s == t

def CompareOp.atoms (op : CompareOp) (a b : Atom) : Bool :=
  match op with
  | .eq => a.equals b
  | .ne => !a.equals b
  | .lt => a.toNumber < b.toNumber
  | .le => a.toNumber ≤ b.toNumber
  | .gt => a.toNumber > b.toNumber
  | .ge => a.toNumber ≥ b.toNumber

variable (d : Document)

def CompareOp.nodesWith (op : CompareOp) (ns : List NodeId) (a : Atom) : Bool :=
  match a with
  | .truth _ => op.atoms (.truth (!ns.isEmpty)) a
  | _ => ns.any fun n => op.atoms (.text (d.stringValue n)) a

def CompareOp.values (op : CompareOp) : Value → Value → Bool
  | .nodes ms, .nodes ns =>
    ms.any fun m => ns.any fun n => op.atoms (.text (d.stringValue m)) (.text (d.stringValue n))
  | .nodes ns, .atom a => op.nodesWith d ns a
  | .atom a, .nodes ns => op.flip.nodesWith d ns a
  | .atom a, .atom b => op.atoms a b

end ComputedField.Query
