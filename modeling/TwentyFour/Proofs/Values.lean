import Mathlib.Algebra.Field.Rat
import Mathlib.Data.List.Perm.Basic
import Mathlib.Data.Option.NAry
import TwentyFour.Proofs.Canonical

/-!
# Values of spliced expressions

The value of a compound is computed from left to right over its sorted
operands.  This module shows that the order does not matter, and that splicing
does not change the value: the value of a spliced compound is the operation
applied to the values of its two sides.

* `OpClass.directed?` is what a value contributes in a direction, and
  `OpClass.total` combines contributions.  `value_compound_eq_total` is the
  value of a compound in these terms, and `total_perm` and `total_append`
  follow from the laws of addition and multiplication.
* `total_terms` says that an expression contributes its value, whether it is
  spliced in or kept as one operand.
* `value_splice` and `value_join` are the results, and `value_combine` is the
  value that the search gets from a pair.
-/

namespace TwentyFour

namespace OpClass

/-! ## Contributions -/

/-- The sum or the product of two values. -/
def op : OpClass → Rat → Rat → Rat
  | .multiplicative, v, w => v * w
  | .additive, v, w => v + w

/-- What a value contributes to a sum or product: itself, or its opposite or
inverse if it is subtracted or divided by. -/
def directed? (cls : OpClass) (reverse : Bool) (v : Rat) : Option Rat :=
  match cls, reverse with
  | _, false => some v
  | .additive, true => some (-v)
  | .multiplicative, true => if v = 0 then none else some v⁻¹

@[simp] theorem directed?_false (cls : OpClass) (v : Rat) :
    cls.directed? false v = some v := by
  cases cls <;> rfl

theorem op_comm (cls : OpClass) (v w : Rat) : cls.op v w = cls.op w v := by
  cases cls with
  | multiplicative => exact mul_comm v w
  | additive => exact add_comm v w

theorem op_assoc (cls : OpClass) (u v w : Rat) :
    cls.op (cls.op u v) w = cls.op u (cls.op v w) := by
  cases cls with
  | multiplicative => exact mul_assoc u v w
  | additive => exact add_assoc u v w

@[simp] theorem identity_op (cls : OpClass) (v : Rat) :
    cls.op cls.identity v = v := by
  cases cls with
  | multiplicative => exact one_mul v
  | additive => exact zero_add v

@[simp] theorem op_identity (cls : OpClass) (v : Rat) :
    cls.op v cls.identity = v := by
  rw [op_comm, identity_op]

theorem apply_eq_map (cls : OpClass) (reverse : Bool) (acc v : Rat) :
    cls.apply reverse acc v = (cls.directed? reverse v).map (cls.op acc) := by
  cases cls with
  | additive =>
    cases reverse with
    | false => rfl
    | true => simp [apply, directed?, op, sub_eq_add_neg]
  | multiplicative =>
    cases reverse with
    | false => rfl
    | true =>
      by_cases hv : v = 0
      · simp [apply, directed?, hv]
      · simp [apply, directed?, op, hv, div_eq_mul_inv]

@[simp] theorem directed?_identity (cls : OpClass) (reverse : Bool) :
    cls.directed? reverse cls.identity = some cls.identity := by
  cases cls <;> cases reverse <;> simp [directed?, identity]

/-- Turning around what was already directed. -/
theorem directed?_directed? {cls : OpClass} {r s : Bool} {v w : Rat}
    (h : cls.directed? r v = some w) :
    cls.directed? s w = cls.directed? (r != s) v := by
  cases r with
  | false =>
    rw [directed?_false, Option.some.injEq] at h
    rw [h, Bool.false_bne]
  | true =>
    cases s with
    | false => rw [directed?_false, ← h, Bool.bne_false]
    | true =>
      cases cls with
      | additive =>
        simp only [directed?, Option.some.injEq] at h
        simp [directed?, ← h]
      | multiplicative =>
        simp only [directed?] at h
        split_ifs at h with hv
        simp only [Option.some.injEq] at h
        simp [directed?, ← h, hv]

theorem directed?_op (cls : OpClass) (reverse : Bool) (v w : Rat) :
    cls.directed? reverse (cls.op v w) =
      Option.map₂ cls.op (cls.directed? reverse v) (cls.directed? reverse w) := by
  cases reverse with
  | false => simp
  | true =>
    cases cls with
    | additive =>
      simp only [directed?, op, Option.map₂_some_some, Option.some.injEq]
      exact neg_add v w
    | multiplicative =>
      by_cases hv : v = 0
      · simp [directed?, op, hv]
      · by_cases hw : w = 0
        · simp [directed?, op, hw]
        · simp [directed?, op, hv, hw, mul_comm]

/-! ## Totals -/

/-- The sum or product of contributions, if all of them are there. -/
def total (cls : OpClass) (xs : List (Option Rat)) : Option Rat :=
  xs.foldr (Option.map₂ cls.op) (some cls.identity)

theorem total_cons (cls : OpClass) (x : Option Rat) (xs : List (Option Rat)) :
    cls.total (x :: xs) = Option.map₂ cls.op x (cls.total xs) := rfl

theorem total_append (cls : OpClass) (xs ys : List (Option Rat)) :
    cls.total (xs ++ ys) = Option.map₂ cls.op (cls.total xs) (cls.total ys) := by
  induction xs with
  | nil =>
    change cls.total ys = Option.map₂ cls.op (some cls.identity) (cls.total ys)
    cases cls.total ys <;> simp
  | cons x xs ih =>
    rw [List.cons_append, total_cons, total_cons, ih]
    exact (Option.map₂_assoc cls.op_assoc).symm

/-- The order of contributions does not matter. -/
theorem total_perm (cls : OpClass) {xs ys : List (Option Rat)} (h : xs.Perm ys) :
    cls.total xs = cls.total ys := by
  have hcomm : ∀ u v w, cls.op u (cls.op v w) = cls.op v (cls.op u w) := by
    intro u v w
    rw [← op_assoc, op_comm cls u v, op_assoc]
  have : LeftCommutative (Option.map₂ cls.op) :=
    ⟨fun x y z => Option.map₂_left_comm hcomm⟩
  exact h.foldr_eq _

end OpClass

/-! ## Compounds -/

/-- What an operand contributes to a compound of class `cls`. -/
def Operand.share? (cls : OpClass) (o : Operand Expr) : Option Rat :=
  o.expr.value.bind (cls.directed? o.reverse)

namespace Expr

theorem foldValue_cons (cls : OpClass) (acc : Rat) (o : Operand Expr)
    (rest : List (Operand Expr)) :
    foldValue cls acc (o :: rest) =
      (o.expr.value.bind (cls.apply o.reverse acc)).bind fun next =>
        foldValue cls next rest := by
  simp only [foldValue_eq_foldlM, List.foldlM_cons]
  rfl

theorem foldValue_eq_total (cls : OpClass) (ops : List (Operand Expr)) (acc : Rat) :
    foldValue cls acc ops =
      (cls.total (ops.map (Operand.share? cls))).map (cls.op acc) := by
  induction ops generalizing acc with
  | nil => simp [foldValue, OpClass.total]
  | cons o rest ih =>
    rw [List.map_cons, OpClass.total_cons, foldValue_cons, Operand.share?]
    cases o.expr.value with
    | none => rfl
    | some v =>
      rw [Option.bind_some, Option.bind_some, OpClass.apply_eq_map]
      cases cls.directed? o.reverse v with
      | none => rfl
      | some w =>
        rw [Option.map_some, Option.bind_some, ih]
        cases cls.total (rest.map (Operand.share? cls)) with
        | none => rfl
        | some t => simp [OpClass.op_assoc]

/-- The value of a compound is the total of what its operands contribute. -/
theorem value_compound_eq_total (cls : OpClass) (ops : List (Operand Expr)) :
    (compound cls ops).value = cls.total (ops.map (Operand.share? cls)) := by
  rw [value_compound, foldValue_eq_total]
  cases cls.total (ops.map (Operand.share? cls)) <;> simp

theorem share?_term (cls : OpClass) (e : Expr) (reverse : Bool) :
    (term cls e reverse).share? cls = e.value.bind (cls.directed? reverse) := by
  by_cases hneutral : e.isNeutral cls = true
  · rw [Operand.share?, term_expr, isNeutral_iff.1 hneutral, Option.bind_some,
      Option.bind_some, OpClass.directed?_identity, OpClass.directed?_identity]
  · rw [Bool.not_eq_true] at hneutral
    simp [Operand.share?, term_eq, hneutral]

theorem total_map_turn {cls : OpClass} {ops : List (Operand Expr)} {v : Rat}
    (h : cls.total (ops.map (Operand.share? cls)) = some v) (reverse : Bool) :
    cls.total ((ops.map (Operand.turn cls reverse)).map (Operand.share? cls)) =
      cls.directed? reverse v := by
  induction ops generalizing v with
  | nil =>
    simp only [List.map_nil, OpClass.total, List.foldr_nil, Option.some.injEq] at h ⊢
    rw [← h, OpClass.directed?_identity]
  | cons o rest ih =>
    rw [List.map_cons, OpClass.total_cons, Option.map₂_eq_some_iff] at h
    obtain ⟨a, b, ha, hb, rfl⟩ := h
    obtain ⟨w, hw, hdirected⟩ := Option.bind_eq_some_iff.1 ha
    have hshare : (o.turn cls reverse).share? cls = cls.directed? reverse a := by
      rw [Operand.turn, share?_term, hw, Option.bind_some,
        OpClass.directed?_directed? hdirected]
    rw [List.map_cons, List.map_cons, OpClass.total_cons, ih hb, hshare,
      OpClass.directed?_op]

/-- An expression contributes its value, spliced in or as one operand. -/
theorem total_terms {e : Expr} {v : Rat} (h : e.value = some v) (cls : OpClass)
    (reverse : Bool) :
    cls.total ((e.terms cls reverse).map (Operand.share? cls)) =
      cls.directed? reverse v := by
  by_cases hcls : e.cls? = some cls
  · rw [terms_of_cls?_eq hcls]
    refine total_map_turn ?_ reverse
    rw [← value_compound_eq_total, ← eq_compound_of_cls? hcls, h]
  · rw [terms_of_cls?_ne hcls, List.map_singleton, OpClass.total_cons, share?_term, h,
      Option.bind_some]
    cases cls.directed? reverse v <;> simp [OpClass.total]

/-- The value of a spliced expression is what its two sides contribute, put together. -/
theorem value_splice_eq_total (cls : OpClass) (lhs rhs : Expr) (reverse : Bool) :
    (splice cls lhs rhs reverse).value =
      Option.map₂ cls.op (cls.total ((lhs.terms cls false).map (Operand.share? cls)))
        (cls.total ((rhs.terms cls reverse).map (Operand.share? cls))) := by
  have hperm := (sortBy_perm Operand.compare
    (lhs.terms cls false ++ rhs.terms cls reverse)).map (Operand.share? cls)
  rw [splice, Operand.sort, value_compound_eq_total, cls.total_perm hperm,
    List.map_append, OpClass.total_append]

/-- Splicing keeps the value: it is the operation applied to both values. -/
theorem value_splice {lhs rhs : Expr} {v w : Rat} (hl : lhs.value = some v)
    (hr : rhs.value = some w) (cls : OpClass) (reverse : Bool) :
    (splice cls lhs rhs reverse).value = cls.apply reverse v w := by
  rw [value_splice_eq_total, total_terms hl, total_terms hr, OpClass.directed?_false,
    OpClass.apply_eq_map]
  cases cls.directed? reverse w <;> rfl

theorem value_join {lhs rhs : Expr} {v w : Rat} (hcanonical : lhs.Canonical)
    (hl : lhs.value = some v) (hr : rhs.value = some w) (cls : OpClass)
    (reverse : Bool) :
    (lhs.join cls rhs reverse).value = cls.apply reverse v w := by
  rw [join_eq_splice hcanonical, value_splice hl hr]

end Expr

/-! ## What the search gets from a pair -/

/-- The value that a symbol makes of two values. -/
def Symbol.result? : Symbol → Rat → Rat → Option Rat
  | .add, v, w => some (v + w)
  | .sub, v, w => some (if v < w then w - v else v - w)
  | .mul, v, w => some (v * w)
  | .div, v, w => if w = 0 then none else some (v / w)
  | .revDiv, v, w => if v = 0 then none else some (w / v)

theorem combine_of_arrange {left right lhs rhs : Expr} {symbol : Symbol}
    (harrange : symbol.arrange left right = some (lhs, rhs)) {v w : Rat}
    (hcanonical : lhs.Canonical) (hl : lhs.value = some v) (hr : rhs.value = some w) :
    (combine left symbol right).bind Expr.value =
      symbol.cls.apply symbol.reverse v w := by
  have hjoin := Expr.value_join hcanonical hl hr symbol.cls symbol.reverse
  unfold combine
  rw [harrange]
  dsimp only
  by_cases hdivides : symbol.dividesByZero rhs = true
  · rw [if_pos hdivides]
    simp only [Symbol.dividesByZero, hr, Option.all_some, Bool.and_eq_true,
      decide_eq_true_eq, beq_iff_eq] at hdivides
    obtain ⟨⟨hcls, hreverse⟩, hw⟩ := hdivides
    simp [hcls, hreverse, OpClass.apply, hw]
  · rw [if_neg hdivides, hjoin]
    cases hresult : symbol.cls.apply symbol.reverse v w with
    | none => rfl
    | some x =>
      rw [Option.isSome_some, if_pos rfl, Option.bind_some, hjoin, hresult]

/-- The value of what a symbol makes of two expressions. -/
theorem value_combine {left right : Expr} {v w : Rat} (hl : left.Canonical)
    (hr : right.Canonical) (hv : left.value = some v) (hw : right.value = some w)
    (symbol : Symbol) :
    (combine left symbol right).bind Expr.value = symbol.result? v w := by
  cases symbol with
  | add => exact combine_of_arrange rfl hl hv hw
  | mul => exact combine_of_arrange rfl hl hv hw
  | div => exact combine_of_arrange rfl hl hv hw
  | revDiv => exact combine_of_arrange rfl hr hw hv
  | sub =>
    have harrange : Symbol.sub.arrange left right =
        some (if v < w then (right, left) else (left, right)) := by
      simp only [Symbol.arrange, hv, hw]
    by_cases hlt : v < w
    · rw [if_pos hlt] at harrange
      rw [combine_of_arrange harrange hr hw hv]
      simp [Symbol.result?, Symbol.cls, Symbol.reverse, OpClass.apply, hlt]
    · rw [if_neg hlt] at harrange
      rw [combine_of_arrange harrange hl hv hw]
      simp [Symbol.result?, Symbol.cls, Symbol.reverse, OpClass.apply, hlt]

end TwentyFour
