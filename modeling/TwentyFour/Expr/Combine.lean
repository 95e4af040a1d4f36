import TwentyFour.Expr.Join

/-!
# The operations of the search

The search tries five operations on every pair of expressions.  `combine` performs one of them.
It subtracts the smaller side from the larger and gives nothing when the result would have no
value, so what the search builds is never negative and always has a value.
-/

namespace TwentyFour

/-- An operation on a left and a right expression. -/
inductive Symbol where
  /-- The operation `left + right`. -/
  | add
  /-- The operation `left - right`, or `right - left` if `right` is larger. -/
  | sub
  /-- The operation `left × right`. -/
  | mul
  /-- The operation `left ÷ right`. -/
  | div
  /-- The operation `right ÷ left`. -/
  | revDiv
deriving DecidableEq, Repr

namespace Symbol

/-- Every symbol, in the order the search tries them. -/
def all : List Symbol :=
  [.add, .sub, .mul, .div, .revDiv]

/-- The class of the compound that the symbol makes. -/
def cls : Symbol → OpClass
  | .add | .sub => .additive
  | .mul | .div | .revDiv => .multiplicative

/-- Whether the second operand is subtracted or divided by. -/
def reverse : Symbol → Bool
  | .add | .mul => false
  | .sub | .div | .revDiv => true

/-- The two sides in the order in which the symbol joins them.  Which one is subtracted depends on
the values, so both must have one. -/
def arrange (symbol : Symbol) (left right : Expr) : Option (Expr × Expr) :=
  match symbol with
  | .add | .mul | .div => some (left, right)
  | .revDiv => some (right, left)
  | .sub =>
    match left.value, right.value with
    | some v, some w => some (if v < w then (right, left) else (left, right))
    | _, _ => none

/-- Whether the symbol divides by `divisor` although it is zero or has no value. -/
def dividesByZero (symbol : Symbol) (divisor : Expr) : Bool :=
  symbol.cls = .multiplicative && symbol.reverse && divisor.value.all (· == 0)

theorem mem_all (symbol : Symbol) : symbol ∈ all := by
  cases symbol <;> simp [all]

end Symbol

/-- The canonical expression that a symbol makes of two others, or nothing if it has no value. -/
def combine (left : Expr) (symbol : Symbol) (right : Expr) : Option Expr :=
  match symbol.arrange left right with
  | none => none
  | some (lhs, rhs) =>
    if symbol.dividesByZero rhs then
      none
    else
      let result := lhs.join symbol.cls rhs symbol.reverse
      if result.value.isSome then some result else none

/-- What `combine` gives has a value. -/
theorem isSome_value_of_combine {left right e : Expr} {symbol : Symbol}
    (h : combine left symbol right = some e) : e.value.isSome := by
  unfold combine at h
  split at h
  · simp at h
  · split at h
    · simp at h
    · dsimp only at h
      split at h
      · simp_all
      · simp at h

end TwentyFour
