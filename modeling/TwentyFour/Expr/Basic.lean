/-!
# Arithmetic expressions

An expression is a number or a compound: an n-ary sum or product.  There are only two classes of
operation.  A sum covers `+` and `-`, a product covers `×` and `÷`, and subtraction and division
are an operand whose `reverse` flag is set.

The value of an expression is computed from its operands and is not stored, so equal expressions
have equal values.  An expression that divides by zero has no value, and no compound with such an
operand has one.

Equality of expressions is equality of the trees; it is decidable, and `Expr.hash` respects it.
`Expr.induct` is the induction principle that sees the operands of a compound as a list.
-/

namespace TwentyFour

/-- The class of a compound expression.  Products come before sums in the order of expressions. -/
inductive OpClass where
  /-- Multiplication, and division through reversed operands. -/
  | multiplicative
  /-- Addition, and subtraction through reversed operands. -/
  | additive
deriving DecidableEq, Hashable, Ord, Repr

namespace OpClass

/-- The value that changes nothing: 0 in a sum and 1 in a product. -/
def identity : OpClass → Rat
  | .multiplicative => 1
  | .additive => 0

/-- Whether `v` changes nothing in a compound of this class. -/
def isIdentity (cls : OpClass) (v : Rat) : Bool :=
  v == cls.identity

/-- Adds or multiplies by `v`, or subtracts or divides by it if `reverse` is set.  There is no
result when dividing by zero. -/
def apply (cls : OpClass) (reverse : Bool) (acc v : Rat) : Option Rat :=
  match cls, reverse with
  | .additive, false => some (acc + v)
  | .additive, true => some (acc - v)
  | .multiplicative, false => some (acc * v)
  | .multiplicative, true => if v = 0 then none else some (acc / v)

end OpClass

/-- An operand of a compound, with its direction. -/
structure Operand (α : Type) where
  /-- Whether the operand is subtracted or divided by, instead of added or multiplied. -/
  reverse : Bool
  /-- The operand itself. -/
  expr : α
deriving DecidableEq, Hashable, Repr

/-- A number, or a sum or product of operands. -/
inductive Expr where
  | number (value : Rat)
  | compound (cls : OpClass) (operands : List (Operand Expr))
deriving Repr

namespace Expr

/-- Induction on expressions, with a hypothesis for every operand of a compound. -/
@[elab_as_elim]
theorem induct {motive : Expr → Prop} (number : ∀ v, motive (.number v))
    (compound : ∀ cls operands, (∀ o ∈ operands, motive o.expr) → motive (.compound cls operands))
    (e : Expr) : motive e := by
  match e with
  | .number v => exact number v
  | .compound cls operands =>
    exact compound cls operands fun o _ => induct number compound o.expr
termination_by sizeOf e
decreasing_by
  rename_i hmem
  have hbelow := List.sizeOf_lt_of_mem hmem
  cases o
  simp_all
  omega

/-! ## Equality and hashing -/

mutual

/-- Equality of expressions is decided by comparing the trees. -/
def decEq : (a b : Expr) → Decidable (a = b)
  | .number v, .number w =>
    if h : v = w then .isTrue (by rw [h]) else .isFalse (by simpa using h)
  | .number _, .compound .. => .isFalse (by simp)
  | .compound .., .number _ => .isFalse (by simp)
  | .compound c xs, .compound d ys =>
    if h : c = d then
      match decEqOperands xs ys with
      | .isTrue hsame => .isTrue (by rw [h, hsame])
      | .isFalse hdiffer => .isFalse (by simp [hdiffer])
    else .isFalse (by simp [h])

/-- Equality of lists of operands. -/
def decEqOperands : (xs ys : List (Operand Expr)) → Decidable (xs = ys)
  | [], [] => .isTrue rfl
  | [], _ :: _ => .isFalse (by simp)
  | _ :: _, [] => .isFalse (by simp)
  | ⟨r, a⟩ :: xs, ⟨s, b⟩ :: ys =>
    if h : r = s then
      match decEq a b with
      | .isFalse hdiffer => .isFalse (by simp [hdiffer])
      | .isTrue hsame =>
        match decEqOperands xs ys with
        | .isTrue hrest => .isTrue (by rw [h, hsame, hrest])
        | .isFalse hdiffer => .isFalse (by simp [hdiffer])
    else .isFalse (by simp [h])

end

instance : DecidableEq Expr := decEq

mutual

/-- A hash of the tree. -/
def hash : Expr → UInt64
  | .number v => mixHash 3 (Hashable.hash v)
  | .compound cls operands => hashOperands (mixHash 5 (Hashable.hash cls)) operands

/-- Mixes operands into a hash, from left to right. -/
def hashOperands (acc : UInt64) : List (Operand Expr) → UInt64
  | [] => acc
  | ⟨r, e⟩ :: rest => hashOperands (mixHash acc (mixHash (Hashable.hash r) e.hash)) rest

end

instance : Hashable Expr := ⟨hash⟩

/-! ## Values -/

mutual

/-- The exact value of an expression, or nothing if it divides by zero. -/
def value : Expr → Option Rat
  | .number v => some v
  | .compound cls operands => foldValue cls cls.identity operands

/-- Applies the values of operands to `acc`, from left to right. -/
def foldValue (cls : OpClass) (acc : Rat) : List (Operand Expr) → Option Rat
  | [] => some acc
  | ⟨reverse, e⟩ :: rest =>
    match e.value with
    | none => none
    | some v =>
      match cls.apply reverse acc v with
      | none => none
      | some next => foldValue cls next rest

end

/-- The operands of a compound; a number has none. -/
def operands : Expr → List (Operand Expr)
  | .number _ => []
  | .compound _ ops => ops

/-- Whether the expression is a single number. -/
def isNumber : Expr → Bool
  | .number _ => true
  | .compound .. => false

@[simp] theorem value_number (v : Rat) : (number v).value = some v := by rw [value]

theorem value_compound (cls : OpClass) (ops : List (Operand Expr)) :
    (compound cls ops).value = foldValue cls cls.identity ops := by rw [value]

/-- The value of a compound is the fold of its operands' values. -/
theorem foldValue_eq_foldlM (cls : OpClass) (ops : List (Operand Expr)) (acc : Rat) :
    foldValue cls acc ops =
      ops.foldlM (fun acc o => o.expr.value.bind (cls.apply o.reverse acc)) acc := by
  induction ops generalizing acc with
  | nil => simp [foldValue]
  | cons o rest ih =>
    simp only [foldValue, List.foldlM_cons]
    cases o.expr.value with
    | none => rfl
    | some v =>
      simp only [Option.bind_some]
      cases cls.apply o.reverse acc v with
      | none => rfl
      | some next => exact ih next

end Expr

end TwentyFour
