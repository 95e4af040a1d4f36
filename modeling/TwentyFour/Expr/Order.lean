import TwentyFour.Expr.Basic
import TwentyFour.Ordered

/-!
# The order of expressions

Every number comes before every compound, and numbers are ordered by value.  Compounds are ordered
by class, products first, then by the number of operands, then operand by operand.  An operand
that is not reversed comes before one that is, and the expression breaks ties.

This is the order in which the operands of a compound and the members of a search state are kept.
-/

namespace TwentyFour

/-- Compares two rationals. -/
def compareRat (v w : Rat) : Ordering :=
  if v < w then .lt else if v = w then .eq else .gt

namespace Expr

mutual

/-- Compares two expressions. -/
def compare : Expr → Expr → Ordering
  | .number v, .number w => compareRat v w
  | .number _, .compound .. => .lt
  | .compound .., .number _ => .gt
  | .compound c xs, .compound d ys =>
    (Ord.compare c d).then ((Ord.compare xs.length ys.length).then (compareOperands xs ys))

/-- Compares two lists of operands, operand by operand. -/
def compareOperands : List (Operand Expr) → List (Operand Expr) → Ordering
  | [], [] => .eq
  | [], _ :: _ => .lt
  | _ :: _, [] => .gt
  | ⟨r, a⟩ :: xs, ⟨s, b⟩ :: ys =>
    (Ord.compare r s).then ((a.compare b).then (compareOperands xs ys))

end

instance : Ord Expr := ⟨compare⟩

/-- Expressions in increasing order. -/
def sort (es : List Expr) : List Expr :=
  sortBy compare es

end Expr

namespace Operand

/-- Compares two operands: the direction first, then the expression. -/
def compare (a b : Operand Expr) : Ordering :=
  (Ord.compare a.reverse b.reverse).then (a.expr.compare b.expr)

/-- Operands in increasing order. -/
def sort (ops : List (Operand Expr)) : List (Operand Expr) :=
  sortBy compare ops

end Operand

theorem Expr.compareOperands_cons (x y : Operand Expr) (xs ys : List (Operand Expr)) :
    compareOperands (x :: xs) (y :: ys) = (x.compare y).then (compareOperands xs ys) := by
  cases x
  cases y
  simp only [compareOperands, Operand.compare]
  exact (Ordering.then_assoc ..).symm

end TwentyFour
