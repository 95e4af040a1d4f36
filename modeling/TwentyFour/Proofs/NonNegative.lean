import TwentyFour.Proofs.Answers
import TwentyFour.Proofs.Nodes

/-!
# Nothing is negative on the way

The search subtracts the smaller side from the larger.  Splicing then takes results apart
and turns some of their operands around, and still no part of an answer is negative, and
evaluating an answer from left to right never goes below zero.

* `Expr.NonNegative` says that every node has a value and none is negative.
  `NonNegative.of_combine` is the step of the search: the compound that it adds has the
  value of the whole result, and what is below was there before.
* `Expr.partialResult` is the value of the operands that an evaluation has reached.
  `partialResult_nonneg` says that it is not negative.  In a sum the operands that are
  subtracted come last, so the partial results only rise, or only fall to the end.
* `nonneg_of_hasNode_of_mem_solve` is the result about the answers of the search.
-/

namespace TwentyFour

/-! ## From left to right -/

theorem OpClass.apply_nonneg {cls : OpClass} {reverse : Bool} {acc v w : Rat}
    (hacc : 0 ≤ acc) (hv : 0 ≤ v) (hrises : cls = .multiplicative ∨ reverse = false)
    (h : cls.apply reverse acc v = some w) : 0 ≤ w := by
  cases cls with
  | additive =>
    obtain rfl : reverse = false := hrises.resolve_left (by simp)
    obtain rfl : acc + v = w := Option.some.inj h
    exact add_nonneg hacc hv
  | multiplicative =>
    cases reverse with
    | false =>
      obtain rfl : acc * v = w := Option.some.inj h
      exact mul_nonneg hacc hv
    | true =>
      simp only [apply] at h
      split_ifs at h
      obtain rfl : acc / v = w := Option.some.inj h
      exact div_nonneg hacc hv

namespace Expr

theorem foldValue_append (cls : OpClass) (acc : Rat) (xs ys : List (Operand Expr)) :
    foldValue cls acc (xs ++ ys) =
      (foldValue cls acc xs).bind fun v => foldValue cls v ys := by
  simp only [foldValue_eq_foldlM, List.foldlM_append]
  rfl

theorem foldValue_cons_eq_some {cls : OpClass} {acc x : Rat} {o : Operand Expr}
    {rest : List (Operand Expr)} :
    foldValue cls acc (o :: rest) = some x ↔ ∃ v next, o.expr.value = some v ∧
      cls.apply o.reverse acc v = some next ∧ foldValue cls next rest = some x := by
  rw [foldValue_cons]
  simp only [Option.bind_eq_some_iff]
  grind

/-- The operands are not negative. -/
def NonNegativeOperands (ops : List (Operand Expr)) : Prop :=
  ∀ o ∈ ops, ∀ v, o.expr.value = some v → 0 ≤ v

/-- Without subtraction a fold stays above zero. -/
theorem foldValue_nonneg {cls : OpClass} {ops : List (Operand Expr)}
    (hops : NonNegativeOperands ops)
    (hrises : ∀ o ∈ ops, cls = .multiplicative ∨ o.reverse = false) {acc x : Rat}
    (hacc : 0 ≤ acc) (h : foldValue cls acc ops = some x) : 0 ≤ x := by
  induction ops generalizing acc with
  | nil =>
    rw [foldValue, Option.some.injEq] at h
    rw [← h]
    exact hacc
  | cons o rest ih =>
    obtain ⟨v, next, hv, hnext, hrest⟩ := foldValue_cons_eq_some.1 h
    have hmem : o ∈ o :: rest := List.mem_cons_self
    have hpos := OpClass.apply_nonneg hacc (hops o hmem v hv) (hrises o hmem) hnext
    exact ih (fun p hp => hops p (List.mem_cons_of_mem o hp))
      (fun p hp => hrises p (List.mem_cons_of_mem o hp)) hpos hrest

/-- Subtracting only leads down. -/
theorem foldValue_le {ops : List (Operand Expr)} (hops : NonNegativeOperands ops)
    (hfalls : ∀ o ∈ ops, o.reverse = true) {acc x : Rat}
    (h : foldValue .additive acc ops = some x) : x ≤ acc := by
  induction ops generalizing acc with
  | nil =>
    rw [foldValue, Option.some.injEq] at h
    exact h.ge
  | cons o rest ih =>
    obtain ⟨v, next, hv, hnext, hrest⟩ := foldValue_cons_eq_some.1 h
    have hmem : o ∈ o :: rest := List.mem_cons_self
    rw [hfalls o hmem] at hnext
    obtain rfl : acc - v = next := Option.some.inj hnext
    calc x ≤ acc - v := ih (fun p hp => hops p (List.mem_cons_of_mem o hp))
          (fun p hp => hfalls p (List.mem_cons_of_mem o hp)) hrest
      _ ≤ acc := sub_le_self acc (hops o hmem v hv)

/-- The value of the operands that an evaluation from left to right has reached.  There is
none before the first operand. -/
def partialResult (cls : OpClass) : List (Operand Expr) → Option Rat
  | [] => none
  | first :: rest => first.expr.value.bind fun v => foldValue cls v rest

/-- A canonical compound is evaluated from its first operand on. -/
theorem value_compound_eq_partialResult {cls : OpClass} {ops : List (Operand Expr)}
    (h : CanonicalOperands cls ops) : (compound cls ops).value = partialResult cls ops := by
  cases ops with
  | nil => exact absurd h.two_le (by simp)
  | cons o rest =>
    have hforward : o.reverse = false := h.head_forward
    rw [value_compound, foldValue_cons, partialResult, hforward]
    cases o.expr.value with
    | none => rfl
    | some v => simp [OpClass.apply_eq_map]

/-- No partial result is negative if no operand is, nor the result. -/
theorem partialResult_nonneg {cls : OpClass} {front back : List (Operand Expr)}
    (hcanonical : CanonicalOperands cls (front ++ back))
    (hops : NonNegativeOperands (front ++ back)) {x : Rat} (hx : 0 ≤ x)
    (hvalue : (compound cls (front ++ back)).value = some x) (hfront : front ≠ []) :
    ∃ w, partialResult cls front = some w ∧ 0 ≤ w := by
  obtain ⟨first, rest, rfl⟩ := List.exists_cons_of_ne_nil hfront
  rw [value_compound_eq_partialResult hcanonical, List.cons_append, partialResult,
    Option.bind_eq_some_iff] at hvalue
  obtain ⟨v, hv, hfold⟩ := hvalue
  rw [foldValue_append, Option.bind_eq_some_iff] at hfold
  obtain ⟨w, hw, hback⟩ := hfold
  have hpos : 0 ≤ v := hops first (by simp) v hv
  have hrest : NonNegativeOperands rest := fun o ho => hops o (by simp [ho])
  have hends : NonNegativeOperands back := fun o ho => hops o (by simp [ho])
  refine ⟨w, by rw [partialResult, hv]; exact hw, ?_⟩
  -- either nothing has been subtracted so far, or all that follows is subtracted
  by_cases hrises : ∀ o ∈ rest, cls = .multiplicative ∨ o.reverse = false
  · exact foldValue_nonneg hrest hrises hpos hw
  · simp only [not_forall, not_or] at hrises
    obtain ⟨o, ho, hcls, hreverse⟩ := hrises
    obtain rfl : cls = .additive := by cases cls <;> simp_all
    have hfalls : ∀ p ∈ back, p.reverse = true := by
      intro p hp
      have hle := (List.pairwise_append.1 hcanonical.sorted).2.2 o (by simp [ho]) p hp
      by_contra hforward
      exact hreverse (Operand.forward_of_isLE hle (by simpa using hforward))
    exact hx.trans (foldValue_le hends hfalls hback)

/-! ## Every node -/

/-- Every node has a value, and none is negative. -/
def NonNegative (e : Expr) : Prop :=
  ∀ n, e.HasNode n → ∃ v, n.value = some v ∧ 0 ≤ v

theorem nonNegative_number {v : Rat} (hv : 0 ≤ v) : (number v).NonNegative := by
  intro n hn
  cases hn with
  | self => exact ⟨v, value_number v, hv⟩

/-- Combining keeps all nodes from being negative. -/
theorem NonNegative.of_combine {left right e : Expr} {symbol : Symbol}
    (hl : left.Canonical) (hr : right.Canonical) (hleft : left.NonNegative)
    (hright : right.NonNegative) (h : combine left symbol right = some e) :
    e.NonNegative := by
  obtain ⟨v, hv, hvpos⟩ := hleft left (.self left)
  obtain ⟨w, hw, hwpos⟩ := hright right (.self right)
  have hroot : ∃ x, e.value = some x ∧ 0 ≤ x := by
    obtain ⟨x, hx⟩ := Option.isSome_iff_exists.1 (isSome_value_of_combine h)
    exact ⟨x, hx, nonneg_of_combine hl hr hv hw hvpos hwpos h hx⟩
  obtain ⟨lhs, rhs, harrange, -, rfl, -⟩ := exists_join_of_combine h
  have hsides : lhs.Canonical ∧ ∀ n, lhs.HasNode n ∨ rhs.HasNode n →
      left.HasNode n ∨ right.HasNode n := by
    rcases Symbol.arrange_cases harrange with ⟨rfl, rfl⟩ | ⟨rfl, rfl⟩
    · exact ⟨hl, fun n => id⟩
    · exact ⟨hr, fun n => Or.symm⟩
  rw [join_eq_splice hsides.1] at hroot ⊢
  intro n hn
  rcases hn.of_splice with rfl | hbelow
  · exact hroot
  · rcases hsides.2 n hbelow with hn | hn
    · exact hleft n hn
    · exact hright n hn

theorem NonNegative.of_mem_solve {values : List Nat} {target : Int} {e : Expr}
    (h : e ∈ solve values target) : e.Canonical ∧ e.NonNegative := by
  refine forall_mem_solve_of_combine (P := fun e => e.Canonical ∧ e.NonNegative) ?_ ?_ h
  · intro n
    exact ⟨.number n, nonNegative_number (Nat.cast_nonneg n)⟩
  · intro left right symbol e hl hr hcombine
    exact ⟨hl.1.of_combine hr.1 hcombine, .of_combine hl.1 hr.1 hl.2 hr.2 hcombine⟩

end Expr

/-- Every node of an answer has a value, and neither this nor any partial result at the
node is negative.  There are no answers for a negative target. -/
theorem nonneg_of_hasNode_of_mem_solve :
    (∀ values target, ∀ e ∈ solve values target, ∀ n, e.HasNode n →
      (∃ v, n.value = some v ∧ 0 ≤ v) ∧
        ∀ cls front back, n = .compound cls (front ++ back) → front ≠ [] →
          ∃ w, Expr.partialResult cls front = some w ∧ 0 ≤ w) ∧
    ∀ values target, target < 0 → solve values target = [] := by
  refine ⟨fun values target e he n hn => ?_, fun values target h => solve_eq_nil_of_neg h values⟩
  obtain ⟨hcanonical, hnonneg⟩ := Expr.NonNegative.of_mem_solve he
  refine ⟨hnonneg n hn, ?_⟩
  rintro cls front back rfl hfront
  obtain ⟨x, hx, hpos⟩ := hnonneg _ hn
  have hops : Expr.NonNegativeOperands (front ++ back) := by
    intro o ho v hv
    obtain ⟨w, hw, hwpos⟩ := hnonneg o.expr (hn.trans (.operand ho (.self o.expr)))
    rw [hv, Option.some.injEq] at hw
    rw [hw]
    exact hwpos
  exact Expr.partialResult_nonneg ((hn.canonical hcanonical).operands_of_cls? rfl) hops hpos hx
    hfront

/-- The sum `1 + 10 - 4`, which the search finds as `10 - (4 - 1)`. -/
def oneAndTenLessFour : Expr :=
  .compound .additive ([⟨false, .number 1⟩, ⟨false, .number 10⟩] ++ [⟨true, .number 4⟩])

/-- In `1 + 10 - 4` neither 4 nor the partial result `1 + 10` is negative.  Nothing is
found for the target -7. -/
theorem nonneg_of_hasNode_of_mem_solve_ten_four_one :
    oneAndTenLessFour ∈ solve [10, 4, 1] 7 ∧ oneAndTenLessFour.HasNode (.number 4) ∧
      (∃ v, (Expr.number 4).value = some v ∧ 0 ≤ v) ∧
      (∃ w, Expr.partialResult .additive [⟨false, .number 1⟩, ⟨false, .number 10⟩] = some w ∧
        0 ≤ w) ∧
      (-7 : Int) < 0 ∧ solve [10, 4, 1] (-7) = [] := by
  have hmem : oneAndTenLessFour ∈ solve [10, 4, 1] 7 := by
    rw [solve_eq_plainSolve_self (by decide)]
    decide +kernel
  have hnode : oneAndTenLessFour.HasNode (.number 4) :=
    .operand (o := ⟨true, .number 4⟩) (by simp) (.self _)
  obtain ⟨hfound, hnegative⟩ := nonneg_of_hasNode_of_mem_solve
  obtain ⟨-, hpartial⟩ := hfound _ _ _ hmem _ (.self _)
  exact ⟨hmem, hnode, (hfound _ _ _ hmem _ hnode).1, hpartial _ _ _ rfl (by simp),
    by decide, hnegative _ _ (by decide)⟩

end TwentyFour
