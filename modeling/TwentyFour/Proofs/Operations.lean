import TwentyFour.Proofs.Stored

/-!
# The value of an operation

Adding, subtracting, multiplying and dividing join two expressions, make a pair of them
or push one onto the other.  This module says what value the result has.

* `Expr.Applied` and `Stored.Applied` list the results of an operation, without and with
  stored values.  All of them splice: `Applied.eq_splice` and `Applied.eq_store`.
* `value_of_applied` is the result for two expressions that have values: the operation
  on these, and nothing for a division by zero.
* `Expr.HasReciprocal` are the products whose operands can all be turned around.
  `total_terms_of_none` says that they are what an expression without a value can
  contribute something as.
* `value_of_applied_none` is the result for expressions of which one has no value.  It
  has no value either, unless something is divided by a product with a reciprocal.
-/

namespace TwentyFour

/-! ## The results of an operation -/

/-- The results of the operation with the left-hand side `lhs`. -/
inductive Expr.Applied (cls : OpClass) (reverse : Bool) (lhs rhs : Expr) : Expr → Prop where
  | join : Applied cls reverse lhs rhs (lhs.join cls rhs reverse)
  | pair : Applied cls reverse lhs rhs (pair cls lhs rhs reverse)
  | push {e : Expr} (hcls : lhs.cls? = some cls) (h : lhs.push? rhs reverse = some e) :
      Applied cls reverse lhs rhs e

/-- The results of the operation on expressions that store their values. -/
inductive Stored.Applied (cls : OpClass) (reverse : Bool) (lhs rhs : Stored) :
    Except Violation Stored → Prop where
  | join : Applied cls reverse lhs rhs (lhs.join cls rhs reverse)
  | pair : Applied cls reverse lhs rhs (pair cls lhs rhs reverse)
  | push {result : Except Violation Stored} (hcls : lhs.cls? = some cls)
      (h : lhs.push? rhs reverse = some result) : Applied cls reverse lhs rhs result

theorem Expr.Applied.eq_splice {cls : OpClass} {reverse : Bool} {lhs rhs e : Expr}
    (h : Applied cls reverse lhs rhs e) (hl : lhs.Canonical) :
    e = splice cls lhs rhs reverse := by
  cases h with
  | join => exact join_eq_splice hl cls rhs reverse
  | pair => exact pair_eq_splice cls lhs rhs reverse
  | push hcls h =>
    obtain ⟨c, hc, rfl⟩ := push?_eq_splice hl h
    rw [Option.some.inj (hcls.symm.trans hc)]

/-- No evaluation is refused, and the result stores the values of the spliced
expression. -/
theorem Stored.Applied.eq_store {cls : OpClass} {reverse : Bool} {lhs rhs : Expr}
    {result : Except Violation Stored}
    (h : Applied cls reverse lhs.store rhs.store result) (hl : lhs.Canonical) :
    result = .ok (Expr.splice cls lhs rhs reverse).store := by
  cases h with
  | join => rw [join_store hl, Expr.join_eq_splice hl]
  | pair => rw [pair_store hl, Expr.pair_eq_splice]
  | push hcls h =>
    rw [push?_store hl] at h
    obtain ⟨e, he, rfl⟩ := Option.map_eq_some_iff.1 h
    rw [Expr.cls?_store] at hcls
    rw [Expr.Applied.eq_splice (.push hcls he) hl]

/-! ## Two values -/

/-- The operation on two values. -/
def OpClass.result : OpClass → Bool → Rat → Rat → Rat
  | .additive, false, v, w => v + w
  | .additive, true, v, w => v - w
  | .multiplicative, false, v, w => v * w
  | .multiplicative, true, v, w => v / w

theorem OpClass.apply_eq_result (cls : OpClass) (reverse : Bool) (v w : Rat) :
    cls.apply reverse v w =
      if cls = .multiplicative ∧ reverse = true ∧ w = 0 then none
      else some (cls.result reverse v w) := by
  cases cls <;> cases reverse <;> simp [apply, result]

/-- The value of an operation on two expressions with values is the operation on these
values, and only a division by zero has none.  The same value is stored. -/
theorem value_of_applied :
    (∀ lhs rhs : Expr, lhs.Built → rhs.Built → ∀ v w, lhs.value = some v →
      rhs.value = some w → ∀ cls reverse e, Expr.Applied cls reverse lhs rhs e →
        e.value = if cls = .multiplicative ∧ reverse = true ∧ w = 0 then none
          else some (cls.result reverse v w)) ∧
    (∀ lhs rhs : Stored, lhs.Built → rhs.Built → ∀ v w, lhs.value = some v →
      rhs.value = some w → ∀ cls reverse result, Stored.Applied cls reverse lhs rhs result →
        ∃ s, result = .ok s ∧
          s.value = if cls = .multiplicative ∧ reverse = true ∧ w = 0 then none
            else some (cls.result reverse v w)) := by
  constructor
  · intro lhs rhs hl hr v w hv hw cls reverse e he
    rw [he.eq_splice hl.canonical, Expr.value_splice hv hw, OpClass.apply_eq_result]
  · intro lhs rhs hl hr v w hv hw cls reverse result hresult
    obtain ⟨a, ha, rfl⟩ := hl.exists_store
    obtain ⟨b, hb, rfl⟩ := hr.exists_store
    rw [Expr.value_store] at hv hw
    refine ⟨_, hresult.eq_store ha.canonical, ?_⟩
    rw [Expr.value_store, Expr.value_splice hv hw, OpClass.apply_eq_result]

/-- The difference `b - a`. -/
def difference (a b : Rat) : Expr :=
  (Expr.number b).join .additive (.number a) true

theorem built_difference (a b : Rat) : (difference a b).Built :=
  .join (.number b) (.number a) .additive true

/-- Divided by `5 - 3` the number 6 gives 3, and divided by `3 - 3` it has no value. -/
theorem value_of_applied_six_over_difference :
    ((Expr.number 6).join .multiplicative (difference 3 5) true).value = some 3 ∧
      ((Expr.number 6).join .multiplicative (difference 3 3) true).value = none ∧
      ∃ s, (Stored.number 6).join .multiplicative (difference 3 5).store true = .ok s ∧
        s.value = some 3 := by
  have htwo : (difference 3 5).value = some 2 := by decide +kernel
  have hzero : (difference 3 3).value = some 0 := by decide +kernel
  have hthree : (6 / 2 : Rat) = 3 := by decide +kernel
  obtain ⟨hplain, hstored⟩ := value_of_applied
  refine ⟨?_, ?_, ?_⟩
  · rw [hplain _ _ (.number 6) (built_difference 3 5) 6 2 (Expr.value_number 6) htwo
      .multiplicative true _ .join, ← hthree]
    rfl
  · rw [hplain _ _ (.number 6) (built_difference 3 3) 6 0 (Expr.value_number 6) hzero
      .multiplicative true _ .join]
    rfl
  · obtain ⟨s, hs, hvalue⟩ := hstored (.number 6) _ (.number 6)
      (Stored.built_store (built_difference 3 5)) 6 2 rfl
      ((Expr.value_store _).trans htwo) .multiplicative true _ .join
    exact ⟨s, hs, by rw [hvalue, ← hthree]; rfl⟩

/-! ## No value -/

namespace OpClass

/-- A total is missing exactly if a contribution is. -/
theorem total_eq_none_iff (cls : OpClass) (xs : List (Option Rat)) :
    cls.total xs = none ↔ none ∈ xs := by
  induction xs with
  | nil => simp [total]
  | cons x xs ih => rw [total_cons, Option.map₂_eq_none_iff, ih, List.mem_cons, eq_comm]

/-- A product with a factor zero is zero. -/
theorem total_of_zero_mem {xs : List (Option Rat)} (hzero : some 0 ∈ xs)
    (hnone : none ∉ xs) : multiplicative.total xs = some 0 := by
  induction xs with
  | nil => simp at hzero
  | cons x xs ih =>
    rw [List.mem_cons, not_or] at hnone
    rw [total_cons]
    rcases List.mem_cons.1 hzero with hx | hrest
    · have htotal : multiplicative.total xs ≠ none := by
        rw [Ne, total_eq_none_iff]
        exact hnone.2
      obtain ⟨t, ht⟩ := Option.ne_none_iff_exists'.1 htotal
      rw [← hx, ht, Option.map₂_some_some, op, zero_mul]
    · obtain ⟨v, hv⟩ := Option.ne_none_iff_exists'.1 (Ne.symm hnone.1)
      rw [hv, ih hrest hnone.2, Option.map₂_some_some, op, mul_zero]

/-- Only the inverse of zero is missing. -/
theorem directed?_eq_none_iff {cls : OpClass} {reverse : Bool} {v : Rat} :
    cls.directed? reverse v = none ↔
      cls = .multiplicative ∧ reverse = true ∧ v = 0 := by
  cases cls <;> cases reverse <;> simp [directed?]

end OpClass

namespace Expr

/-- A product whose operands can all be turned around: they have values, and only
divisors are zero. -/
structure HasReciprocal (e : Expr) : Prop where
  product : e.cls? = some .multiplicative
  nonzero : ∀ o ∈ e.operands, ∃ v, o.expr.value = some v ∧ (o.reverse = false → v ≠ 0)

/-- The left-hand side of an operation contributes its value, if it has one. -/
theorem total_terms_false {e : Expr} (he : e.Canonical) (cls : OpClass) :
    cls.total ((e.terms cls false).map (Operand.share? cls)) = e.value := by
  by_cases hcls : e.cls? = some cls
  · rw [he.terms_false hcls, ← value_compound_eq_total, ← eq_compound_of_cls? hcls]
  · rw [terms_of_cls?_ne hcls, List.map_singleton, OpClass.total_cons, share?_term]
    cases e.value <;> simp [OpClass.total]

/-- What an operand contributes when it is turned around. -/
theorem share?_turn (cls : OpClass) (reverse : Bool) (o : Operand Expr) :
    (o.turn cls reverse).share? cls =
      o.expr.value.bind (cls.directed? (o.reverse != reverse)) :=
  share?_term cls o.expr (o.reverse != reverse)

/-- A compound has no value because one of its operands contributes nothing. -/
theorem exists_share?_eq_none {e : Expr} {cls : OpClass} (hcls : e.cls? = some cls)
    (hvalue : e.value = none) : ∃ o ∈ e.operands, o.share? cls = none := by
  rw [eq_compound_of_cls? hcls, value_compound_eq_total, OpClass.total_eq_none_iff] at hvalue
  exact List.mem_map.1 hvalue

/-- If a product without a value has a reciprocal, this is zero. -/
theorem total_terms_of_hasReciprocal {e : Expr} (hvalue : e.value = none)
    (h : e.HasReciprocal) :
    OpClass.multiplicative.total
      ((e.terms .multiplicative true).map (Operand.share? .multiplicative)) = some 0 := by
  obtain ⟨o, ho, hshare⟩ := exists_share?_eq_none h.product hvalue
  rw [terms_of_cls?_eq h.product, List.map_map]
  refine OpClass.total_of_zero_mem (List.mem_map.2 ⟨o, ho, ?_⟩) fun hmem => ?_
  · -- the operand that contributes nothing is a divisor zero, which becomes a factor
    obtain ⟨v, hv, -⟩ := h.nonzero o ho
    rw [Operand.share?, hv, Option.bind_some, OpClass.directed?_eq_none_iff] at hshare
    obtain ⟨-, hreverse, hzero⟩ := hshare
    rw [Function.comp_apply, share?_turn, hv, hreverse, hzero]
    rfl
  · obtain ⟨p, hp, hturned⟩ := List.mem_map.1 hmem
    obtain ⟨w, hw, hnonzero⟩ := h.nonzero p hp
    rw [Function.comp_apply, share?_turn, hw, Option.bind_some,
      OpClass.directed?_eq_none_iff] at hturned
    obtain ⟨-, hreverse, hzero⟩ := hturned
    exact hnonzero (by simpa using hreverse) hzero

/-- An expression without a value contributes nothing, but for a product with a
reciprocal that something is divided by. -/
theorem total_terms_of_none {e : Expr} (hvalue : e.value = none) {cls : OpClass}
    {reverse : Bool} (h : ¬ (cls = .multiplicative ∧ reverse = true ∧ e.HasReciprocal)) :
    cls.total ((e.terms cls reverse).map (Operand.share? cls)) = none := by
  by_cases hcls : e.cls? = some cls
  · obtain ⟨o, ho, hshare⟩ := exists_share?_eq_none hcls hvalue
    rw [terms_of_cls?_eq hcls, List.map_map]
    by_contra htotal
    -- then every operand can be turned around, so that the expression has a reciprocal
    have hturned : ∀ p ∈ e.operands, ∃ v, p.expr.value = some v ∧
        ¬ (cls = .multiplicative ∧ (p.reverse != reverse) = true ∧ v = 0) := by
      intro p hp
      have hshare' : (p.turn cls reverse).share? cls ≠ none := fun hnone =>
        htotal ((cls.total_eq_none_iff _).2 (List.mem_map.2 ⟨p, hp, hnone⟩))
      rw [share?_turn] at hshare'
      cases hv : p.expr.value with
      | none => simp [hv] at hshare'
      | some v =>
        rw [hv, Option.bind_some, Ne, OpClass.directed?_eq_none_iff] at hshare'
        exact ⟨v, rfl, hshare'⟩
    obtain ⟨v, hv, hnonzero⟩ := hturned o ho
    rw [Operand.share?, hv, Option.bind_some, OpClass.directed?_eq_none_iff] at hshare
    obtain ⟨rfl, hreverse, rfl⟩ := hshare
    obtain rfl : reverse = true := by simpa [hreverse] using hnonzero
    refine h ⟨rfl, rfl, hcls, fun p hp => ?_⟩
    obtain ⟨w, hw, hnonzero'⟩ := hturned p hp
    exact ⟨w, hw, fun hforward hzero => hnonzero' ⟨rfl, by simp [hforward], hzero⟩⟩
  · rw [terms_of_cls?_ne hcls, List.map_singleton, share?_term, hvalue]
    rfl

end Expr

/-- Whether the operation divides an expression with a value by a product that has a
reciprocal. -/
structure Inverts (cls : OpClass) (reverse : Bool) (lhs rhs : Expr) : Prop where
  division : cls = .multiplicative ∧ reverse = true
  defined : lhs.value ≠ none
  reciprocal : rhs.HasReciprocal

/-- The value of what is spliced of two expressions of which one has no value. -/
theorem Expr.value_splice_of_none {lhs rhs : Expr} (hl : lhs.Canonical)
    (hnone : lhs.value = none ∨ rhs.value = none) (cls : OpClass) (reverse : Bool) :
    ((splice cls lhs rhs reverse).value = none ↔ ¬ Inverts cls reverse lhs rhs) ∧
      (Inverts cls reverse lhs rhs → (splice cls lhs rhs reverse).value = some 0) := by
  have hzero : Inverts cls reverse lhs rhs → (splice cls lhs rhs reverse).value = some 0 := by
    rintro ⟨⟨rfl, rfl⟩, hdefined, hreciprocal⟩
    obtain ⟨v, hv⟩ := Option.ne_none_iff_exists'.1 hdefined
    have hvalue : rhs.value = none := hnone.resolve_left hdefined
    rw [value_splice_eq_total, total_terms_false hl, hv,
      total_terms_of_hasReciprocal hvalue hreciprocal, Option.map₂_some_some, OpClass.op,
      mul_zero]
  refine ⟨⟨fun hmissing h => ?_, fun h => ?_⟩, hzero⟩
  · rw [hzero h] at hmissing
    simp at hmissing
  · rw [value_splice_eq_total, total_terms_false hl, Option.map₂_eq_none_iff]
    by_cases hlhs : lhs.value = none
    · exact .inl hlhs
    · refine .inr (total_terms_of_none (hnone.resolve_left hlhs) fun hinverts => h ?_)
      exact ⟨⟨hinverts.1, hinverts.2.1⟩, hlhs, hinverts.2.2⟩

/-- An operation on expressions of which one has no value has no value, but for one case:
divided by a product without a value that has a reciprocal, an expression with a value
gives zero.  The same value is stored. -/
theorem value_of_applied_none {lhs rhs : Expr} (hl : lhs.Built) (hr : rhs.Built)
    (hnone : lhs.value = none ∨ rhs.value = none) (cls : OpClass) (reverse : Bool) :
    (∀ e, Expr.Applied cls reverse lhs rhs e →
      (e.value = none ↔ ¬ Inverts cls reverse lhs rhs) ∧
        (Inverts cls reverse lhs rhs → e.value = some 0)) ∧
    ∀ a b : Stored, a.Built → b.Built → a.erase = lhs → b.erase = rhs →
      ∀ result, Stored.Applied cls reverse a b result →
        ∃ s, result = .ok s ∧ (s.value = none ↔ ¬ Inverts cls reverse lhs rhs) ∧
          (Inverts cls reverse lhs rhs → s.value = some 0) := by
  have hvalue := Expr.value_splice_of_none hl.canonical hnone cls reverse
  constructor
  · intro e he
    rw [he.eq_splice hl.canonical]
    exact hvalue
  · intro a b ha hb hlhs hrhs result hresult
    obtain ⟨lhs', -, rfl⟩ := ha.exists_store
    obtain ⟨rhs', -, rfl⟩ := hb.exists_store
    rw [Expr.erase_store] at hlhs hrhs
    subst hlhs hrhs
    refine ⟨_, hresult.eq_store hl.canonical, ?_⟩
    rw [Expr.value_store]
    exact hvalue

/-- The quotient `3 ÷ 0`, which has no value. -/
def threeOverZero : Expr :=
  (Expr.number 3).join .multiplicative (.number 0) true

theorem built_threeOverZero : threeOverZero.Built :=
  .join (.number 3) (.number 0) .multiplicative true

/-- Nothing has a value that `3 ÷ 0` is added to or multiplied by. -/
theorem value_of_applied_none_three_over_zero :
    threeOverZero.value = none ∧
      (threeOverZero.join .additive (.number 1) false).value = none ∧
      (Expr.pair .multiplicative (.number 5) threeOverZero false).value = none ∧
      ∃ s, threeOverZero.store.join .additive (.number 1) false = .ok s ∧
        s.value = none := by
  have hvalue : threeOverZero.value = none := by decide +kernel
  have hsum : ∀ lhs rhs, ¬ Inverts .additive false lhs rhs := fun _ _ h =>
    absurd h.division.2 (by simp)
  have hproduct : ∀ lhs rhs, ¬ Inverts .multiplicative false lhs rhs := fun _ _ h =>
    absurd h.division.2 (by simp)
  obtain ⟨hplain, hstored⟩ :=
    value_of_applied_none built_threeOverZero (.number 1) (.inl hvalue) .additive false
  obtain ⟨hpair, -⟩ := value_of_applied_none (.number 5) built_threeOverZero (.inr hvalue)
    .multiplicative false
  refine ⟨hvalue, (hplain _ .join).1.2 (hsum _ _), (hpair _ .pair).1.2 (hproduct _ _), ?_⟩
  obtain ⟨s, hs, hmissing, -⟩ := hstored _ _ (Stored.built_store built_threeOverZero)
    (.number 1) (Expr.erase_store _) rfl _ .join
  exact ⟨s, hs, hmissing.2 (hsum _ _)⟩

/-- The expression `3 ÷ 0` has no value, but dividing 5 or `2 × 5` by it gives 0. -/
theorem value_over_three_over_zero :
    threeOverZero.Built ∧ threeOverZero.value = none ∧
      ((Expr.number 5).join .multiplicative threeOverZero true).value = some 0 ∧
      (Expr.pair .multiplicative (.number 5) threeOverZero true).value = some 0 ∧
      ((((Expr.number 2).join .multiplicative (.number 5) false).push? threeOverZero
        true).bind Expr.value) = some 0 :=
  ⟨built_threeOverZero, by decide +kernel⟩

end TwentyFour
