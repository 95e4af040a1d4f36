import TwentyFour.Expr.Order

/-!
# Building compounds

`join` applies an operation as written and gives the result in canonical form.  An operand that is
itself a compound of the same class is spliced in, with the directions of its operands turned
around if it is subtracted or divided by; an operand equal to the identity of the class is never
stored reversed; and the operands are kept in order.  Expressions that differ only by the order of
commutative operands or by the grouping of associative ones therefore get one representation.
-/

namespace TwentyFour

namespace Expr

/-- One operand of a compound of class `cls`.  Reversing an identity changes nothing, so such an
operand is not reversed. -/
def term (cls : OpClass) (e : Expr) (reverse : Bool) : Operand Expr :=
  ⟨reverse && !e.value.any cls.isIdentity, e⟩

/-- What `e` contributes to a compound of class `cls`: its own operands if it is of that class,
else itself. -/
def terms (cls : OpClass) (e : Expr) (reverse : Bool) : List (Operand Expr) :=
  match e with
  | .number v => [term cls (.number v) reverse]
  | .compound c ops =>
    if c = cls then
      ops.map fun o => term cls o.expr (o.reverse != reverse)
    else
      [term cls (.compound c ops) reverse]

/-- Adds an expression to the operands of a compound of class `cls`. -/
def insertTerms (cls : OpClass) (ops : List (Operand Expr)) (e : Expr) (reverse : Bool) :
    List (Operand Expr) :=
  Operand.sort (ops ++ e.terms cls reverse)

/-- The compound of `lhs` and `rhs`, where `rhs` is subtracted or divided by if `reverse` is
set. -/
def pair (cls : OpClass) (lhs rhs : Expr) (reverse : Bool) : Expr :=
  .compound cls (insertTerms cls (insertTerms cls [] lhs false) rhs reverse)

/-- Adds an operand to a compound.  A number takes none. -/
def push? (e rhs : Expr) (reverse : Bool) : Option Expr :=
  match e with
  | .number _ => none
  | .compound cls ops => some (.compound cls (insertTerms cls ops rhs reverse))

/-- Applies an operation as written.  A left-hand side that is already a compound of the class
takes `rhs` as a further operand. -/
def join (lhs : Expr) (cls : OpClass) (rhs : Expr) (reverse : Bool) : Expr :=
  match lhs with
  | .number v => pair cls (.number v) rhs reverse
  | .compound c ops =>
    if c = cls then
      .compound cls (insertTerms cls ops rhs reverse)
    else
      pair cls (.compound c ops) rhs reverse

theorem terms_number (cls : OpClass) (v : Rat) (reverse : Bool) :
    (number v).terms cls reverse = [term cls (.number v) reverse] := rfl

theorem terms_compound_self (cls : OpClass) (ops : List (Operand Expr)) (reverse : Bool) :
    (compound cls ops).terms cls reverse =
      ops.map fun o => term cls o.expr (o.reverse != reverse) := by
  simp [terms]

theorem terms_compound_of_ne {c cls : OpClass} (h : c ≠ cls) (ops : List (Operand Expr))
    (reverse : Bool) :
    (compound c ops).terms cls reverse = [term cls (.compound c ops) reverse] := by
  simp [terms, h]

/-- Adding operands only puts them in place. -/
theorem insertTerms_perm (cls : OpClass) (ops : List (Operand Expr)) (e : Expr) (reverse : Bool) :
    (insertTerms cls ops e reverse).Perm (ops ++ e.terms cls reverse) :=
  sortBy_perm _ _

end Expr

end TwentyFour
