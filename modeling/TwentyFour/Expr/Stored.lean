import TwentyFour.Expr.Combine

/-!
# Expressions that store their values

A compound keeps its value beside its operands.  The value is computed anew whenever operands are
added, from the values that the operands keep, and it takes no part in equality or in the order of
expressions.

`erase` forgets the stored values.  The operations are those on expressions, with one difference:
the first of the sorted operands is taken as it is, and an evaluation that finds it reversed is
refused.
-/

namespace TwentyFour

/-- A number, or a sum or product of operands with its value. -/
inductive Stored where
  | number (value : Rat)
  | compound (cls : OpClass) (operands : List (Operand Stored)) (value : Option Rat)
deriving Repr

/-- Why an evaluation is refused. -/
inductive Violation where
  /-- The first operand is reversed. -/
  | reversedFirst
deriving DecidableEq, Repr

namespace Stored

/-- The value that is stored. -/
def value : Stored → Option Rat
  | .number v => some v
  | .compound _ _ v => v

/-- The operands of a compound; a number has none. -/
def operands : Stored → List (Operand Stored)
  | .number _ => []
  | .compound _ ops _ => ops

/-- The class of a compound; a number has none. -/
def cls? : Stored → Option OpClass
  | .number _ => none
  | .compound cls _ _ => some cls

/-! ## The expression without its values -/

mutual

/-- Forgets the stored values. -/
def erase : Stored → Expr
  | .number v => .number v
  | .compound cls ops _ => .compound cls (eraseOperands ops)

/-- Forgets the values that operands store. -/
def eraseOperands : List (Operand Stored) → List (Operand Expr)
  | [] => []
  | ⟨reverse, s⟩ :: rest => ⟨reverse, s.erase⟩ :: eraseOperands rest

end

mutual

/-- Equality of expressions.  The stored values are not compared. -/
def same : Stored → Stored → Bool
  | .number v, .number w => v == w
  | .number _, .compound .. => false
  | .compound .., .number _ => false
  | .compound c xs _, .compound d ys _ => c = d && sameOperands xs ys

/-- Equality of lists of operands. -/
def sameOperands : List (Operand Stored) → List (Operand Stored) → Bool
  | [], [] => true
  | [], _ :: _ => false
  | _ :: _, [] => false
  | ⟨r, a⟩ :: xs, ⟨s, b⟩ :: ys => r == s && a.same b && sameOperands xs ys

end

mutual

/-- Compares two expressions.  The stored values are not looked at. -/
def compare : Stored → Stored → Ordering
  | .number v, .number w => compareRat v w
  | .number _, .compound .. => .lt
  | .compound .., .number _ => .gt
  | .compound c xs _, .compound d ys _ =>
    (Ord.compare c d).then ((Ord.compare xs.length ys.length).then (compareOperands xs ys))

/-- Compares two lists of operands, operand by operand. -/
def compareOperands : List (Operand Stored) → List (Operand Stored) → Ordering
  | [], [] => .eq
  | [], _ :: _ => .lt
  | _ :: _, [] => .gt
  | ⟨r, a⟩ :: xs, ⟨s, b⟩ :: ys =>
    (Ord.compare r s).then ((a.compare b).then (compareOperands xs ys))

end

/-- Compares two operands, without their stored values. -/
def compareOperand (a b : Operand Stored) : Ordering :=
  Operand.compare ⟨a.reverse, a.expr.erase⟩ ⟨b.reverse, b.expr.erase⟩

/-- Operands in increasing order. -/
def sort (ops : List (Operand Stored)) : List (Operand Stored) :=
  sortBy compareOperand ops

/-! ## Building compounds -/

/-- The value of sorted operands, from the values that they store. -/
def evaluate (cls : OpClass) : List (Operand Stored) → Except Violation (Option Rat)
  | [] => .ok none
  | first :: rest =>
    if first.reverse then
      .error .reversedFirst
    else
      .ok (first.expr.value.bind fun v =>
        rest.foldlM (fun acc o => o.expr.value.bind (cls.apply o.reverse acc)) v)

/-- One operand of a compound of class `cls`.  An identity is not reversed. -/
def term (cls : OpClass) (s : Stored) (reverse : Bool) : Operand Stored :=
  ⟨reverse && !s.value.any cls.isIdentity, s⟩

/-- What an expression contributes to a compound of class `cls`: its own operands if it is of that
class, else itself. -/
def terms (cls : OpClass) (s : Stored) (reverse : Bool) : List (Operand Stored) :=
  match s with
  | .number v => [term cls (.number v) reverse]
  | .compound c ops v =>
    if c = cls then
      ops.map fun o => term cls o.expr (o.reverse != reverse)
    else
      [term cls (.compound c ops v) reverse]

/-- The compound of class `cls` of some operands and what an expression adds to them. -/
def push (cls : OpClass) (ops : List (Operand Stored)) (s : Stored) (reverse : Bool) :
    Except Violation Stored :=
  let ops := sort (ops ++ s.terms cls reverse)
  match evaluate cls ops with
  | .error violation => .error violation
  | .ok value => .ok (.compound cls ops value)

/-- The compound of `lhs` and `rhs`.  Its value is computed after each of them. -/
def pair (cls : OpClass) (lhs rhs : Stored) (reverse : Bool) : Except Violation Stored :=
  match push cls [] lhs false with
  | .error violation => .error violation
  | .ok first => push cls first.operands rhs reverse

/-- Adds an operand to a compound.  A number takes none. -/
def push? (s rhs : Stored) (reverse : Bool) : Option (Except Violation Stored) :=
  match s with
  | .number _ => none
  | .compound cls ops _ => some (push cls ops rhs reverse)

/-- Applies an operation as written. -/
def join (lhs : Stored) (cls : OpClass) (rhs : Stored) (reverse : Bool) :
    Except Violation Stored :=
  match lhs with
  | .number v => pair cls (.number v) rhs reverse
  | .compound c ops v =>
    if c = cls then
      push cls ops rhs reverse
    else
      pair cls (.compound c ops v) rhs reverse

/-- The two sides in the order in which the symbol joins them. -/
def arrange (symbol : Symbol) (left right : Stored) : Option (Stored × Stored) :=
  match symbol with
  | .add | .mul | .div => some (left, right)
  | .revDiv => some (right, left)
  | .sub =>
    match left.value, right.value with
    | some v, some w => some (if v < w then (right, left) else (left, right))
    | _, _ => none

/-- Whether the symbol divides by `divisor` although it is zero or has no value. -/
def dividesByZero (symbol : Symbol) (divisor : Stored) : Bool :=
  symbol.cls = .multiplicative && symbol.reverse && divisor.value.all (· == 0)

/-- What a symbol makes of two expressions, or nothing if it has no value. -/
def combine (left : Stored) (symbol : Symbol) (right : Stored) :
    Except Violation (Option Stored) :=
  match arrange symbol left right with
  | none => .ok none
  | some (lhs, rhs) =>
    if dividesByZero symbol rhs then
      .ok none
    else
      match lhs.join symbol.cls rhs symbol.reverse with
      | .error violation => .error violation
      | .ok result => .ok (if result.value.isSome then some result else none)

/-! ## Erasing -/

theorem eraseOperands_eq_map (ops : List (Operand Stored)) :
    eraseOperands ops = ops.map fun o => ⟨o.reverse, o.expr.erase⟩ := by
  induction ops with
  | nil => rfl
  | cons o rest ih => rw [eraseOperands, ih, List.map_cons]

@[simp] theorem length_eraseOperands (ops : List (Operand Stored)) :
    (eraseOperands ops).length = ops.length := by
  rw [eraseOperands_eq_map, List.length_map]

mutual

/-- Stored values play no part in the order. -/
theorem compare_erase : (s t : Stored) → s.erase.compare t.erase = s.compare t
  | .number v, .number w => by simp [erase, Expr.compare, compare]
  | .number _, .compound .. => by simp [erase, Expr.compare, compare]
  | .compound .., .number _ => by simp [erase, Expr.compare, compare]
  | .compound c xs v, .compound d ys w => by
    simp [erase, Expr.compare, compare, compareOperands_erase xs ys]

theorem compareOperands_erase : (xs ys : List (Operand Stored)) →
    Expr.compareOperands (eraseOperands xs) (eraseOperands ys) = compareOperands xs ys
  | [], [] => by simp [eraseOperands, Expr.compareOperands, compareOperands]
  | [], _ :: _ => by simp [eraseOperands, Expr.compareOperands, compareOperands]
  | _ :: _, [] => by simp [eraseOperands, Expr.compareOperands, compareOperands]
  | ⟨r, a⟩ :: xs, ⟨s, b⟩ :: ys => by
    simp only [eraseOperands, Expr.compareOperands, compareOperands]
    rw [compare_erase a b, compareOperands_erase xs ys]

end

/-- Operands are compared by direction first, then by expression. -/
theorem compareOperand_eq (a b : Operand Stored) :
    compareOperand a b =
      (Ord.compare a.reverse b.reverse).then (a.expr.compare b.expr) := by
  rw [compareOperand, Operand.compare, compare_erase]

end Stored

end TwentyFour
