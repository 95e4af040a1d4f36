import TwentyFour.Proofs.Operations
import TwentyFour.Proofs.Solvability

/-!
# Combining two expressions

What the search gets from two expressions: when it gets nothing, the value and the
numbers of what it gets, and what changes when the two are exchanged.

* `Symbol.Refuses` says on which values a symbol gives nothing, and `Symbol.exact` is
  the result on all others.  `combine_eq_none_iff` and `combine_exact` are the result
  for everything that can be built.  The case that needs care is a divisor without a
  value, by which a division may have one: `combine_of_none`.
* `combine_mirror` exchanges the sides of every symbol but a subtraction.
* Of two expressions with the same value the right one is subtracted.  `Expr.net` counts
  the summands of an expression, and `splice_swap_iff` says by it when exchanging the
  sides makes no difference.  `combine_swap` is the result for everything that can be
  built.
-/

namespace TwentyFour

/-! ## When there is a result -/

/-- The result of a symbol on two values that it does not refuse. -/
def Symbol.exact : Symbol → Rat → Rat → Rat
  | .add, v, w => v + w
  | .sub, v, w => |v - w|
  | .mul, v, w => v * w
  | .div, v, w => v / w
  | .revDiv, v, w => w / v

/-- Whether a symbol gives nothing on two sides with these values: one of them is
missing, or it is zero and divided by. -/
def Symbol.Refuses (symbol : Symbol) (left right : Option Rat) : Prop :=
  left = none ∨ right = none ∨ (symbol = .div ∧ right = some 0) ∨
    (symbol = .revDiv ∧ left = some 0)

theorem Symbol.result?_eq_none_iff {symbol : Symbol} {v w : Rat} :
    symbol.result? v w = none ↔ symbol.Refuses (some v) (some w) := by
  cases symbol <;> simp [result?, Refuses]

theorem Symbol.eq_exact_of_result? {symbol : Symbol} {v w x : Rat}
    (h : symbol.result? v w = some x) : x = symbol.exact v w := by
  cases symbol with
  | add | mul => exact (Option.some.inj h).symm
  | sub =>
    rw [result?_sub] at h
    exact (Option.some.inj h).symm
  | div | revDiv =>
    rw [result?] at h
    split at h
    · simp at h
    · exact (Option.some.inj h).symm

/-- Nothing comes of two sides of which one has no value. -/
theorem combine_of_none {left right : Expr} (hl : left.Canonical) (hr : right.Canonical)
    (hnone : left.value = none ∨ right.value = none) (symbol : Symbol) :
    combine left symbol right = none := by
  refine Option.eq_none_iff_forall_ne_some.2 fun e he => ?_
  obtain ⟨lhs, rhs, harrange, hdivides, rfl, hvalue⟩ := exists_join_of_combine he
  have hsides : lhs.Canonical ∧ (lhs.value = none ∨ rhs.value = none) := by
    rcases Symbol.arrange_cases harrange with ⟨rfl, rfl⟩ | ⟨rfl, rfl⟩
    · exact ⟨hl, hnone⟩
    · exact ⟨hr, hnone.symm⟩
  obtain ⟨hlhs, hnone⟩ := hsides
  rw [Expr.join_eq_splice hlhs] at hvalue
  -- only the quotient by a product with a reciprocal has a value, and that divisor has none
  have hinverts : Inverts symbol.cls symbol.reverse lhs rhs := by
    by_contra hinverts
    rw [(Expr.value_splice_of_none hlhs hnone _ _).1.2 hinverts] at hvalue
    simp at hvalue
  obtain ⟨⟨hcls, hreverse⟩, hdefined, -⟩ := hinverts
  rw [Symbol.dividesByZero, hcls, hreverse, hnone.resolve_left hdefined] at hdivides
  simp at hdivides

theorem combine_eq_none_iff {left right : Expr} (hl : left.Canonical)
    (hr : right.Canonical) (symbol : Symbol) :
    combine left symbol right = none ↔ symbol.Refuses left.value right.value := by
  cases hv : left.value with
  | none => exact iff_of_true (combine_of_none hl hr (.inl hv) symbol) (.inl rfl)
  | some v =>
    cases hw : right.value with
    | none => exact iff_of_true (combine_of_none hl hr (.inr hw) symbol) (.inr (.inl rfl))
    | some w =>
      rw [← Symbol.result?_eq_none_iff, ← value_combine hl hr hv hw symbol,
        Option.bind_eq_none_iff]
      constructor
      · intro hnone e he
        rw [hnone] at he
        simp at he
      · intro hvalueless
        refine Option.eq_none_iff_forall_ne_some.2 fun e he => ?_
        have hvalue := isSome_value_of_combine he
        rw [hvalueless e he] at hvalue
        simp at hvalue

/-- What comes of two sides has the exact value of the symbol. -/
theorem exists_values_of_combine {left right e : Expr} {symbol : Symbol}
    (hl : left.Canonical) (hr : right.Canonical) (h : combine left symbol right = some e) :
    ∃ v w, left.value = some v ∧ right.value = some w ∧
      e.value = some (symbol.exact v w) := by
  have haccepts : ¬ symbol.Refuses left.value right.value := by
    rw [← combine_eq_none_iff hl hr, h]
    simp
  obtain ⟨v, hv⟩ := Option.ne_none_iff_exists'.1 fun hnone => haccepts (.inl hnone)
  obtain ⟨w, hw⟩ := Option.ne_none_iff_exists'.1 fun hnone => haccepts (.inr (.inl hnone))
  obtain ⟨x, hx⟩ := Option.isSome_iff_exists.1 (isSome_value_of_combine h)
  have hresult := value_combine hl hr hv hw symbol
  rw [h, Option.bind_some, hx] at hresult
  exact ⟨v, w, hv, hw, by rw [hx, Symbol.eq_exact_of_result? hresult.symm]⟩

/-- Combining two expressions gives nothing exactly if one of them has no value or the
symbol divides by zero.  Otherwise the result has the exact value, and the numbers of
the two expressions.  It is the same with stored values, where no evaluation is
refused. -/
theorem combine_exact :
    (∀ left right : Expr, left.Built → right.Built → ∀ symbol : Symbol,
      (combine left symbol right = none ↔ symbol.Refuses left.value right.value) ∧
        ∀ e, combine left symbol right = some e →
          ∃ v w, left.value = some v ∧ right.value = some w ∧
            e.value = some (symbol.exact v w) ∧
            e.leafValues.Perm (left.leafValues ++ right.leafValues)) ∧
    ∀ left right : Stored, left.Built → right.Built → ∀ symbol : Symbol,
      ∃ result, Stored.combine left symbol right = .ok result ∧
        (result = none ↔ symbol.Refuses left.value right.value) ∧
        ∀ s, result = some s →
          ∃ v w, left.value = some v ∧ right.value = some w ∧
            s.value = some (symbol.exact v w) ∧
            s.erase.leafValues.Perm (left.erase.leafValues ++ right.erase.leafValues) := by
  have hexact : ∀ left right : Expr, left.Built → right.Built → ∀ symbol : Symbol, ∀ e,
      combine left symbol right = some e →
        ∃ v w, left.value = some v ∧ right.value = some w ∧
          e.value = some (symbol.exact v w) ∧
          e.leafValues.Perm (left.leafValues ++ right.leafValues) := by
    intro left right hl hr symbol e he
    obtain ⟨v, w, hv, hw, hvalue⟩ :=
      exists_values_of_combine hl.canonical hr.canonical he
    have hnumbers := Expr.numbers_combine_perm hl.canonical hr.canonical he
    simp only [← Expr.leafValues_eq_numbers] at hnumbers
    exact ⟨v, w, hv, hw, hvalue, hnumbers⟩
  constructor
  · intro left right hl hr symbol
    exact ⟨combine_eq_none_iff hl.canonical hr.canonical symbol, hexact _ _ hl hr symbol⟩
  · intro left right hl hr symbol
    obtain ⟨a, ha, rfl⟩ := hl.exists_store
    obtain ⟨b, hb, rfl⟩ := hr.exists_store
    refine ⟨_, Stored.combine_store ha.canonical hb.canonical symbol, ?_, ?_⟩
    · rw [Option.map_eq_none_iff, Expr.value_store, Expr.value_store]
      exact combine_eq_none_iff ha.canonical hb.canonical symbol
    · intro s hs
      obtain ⟨e, he, rfl⟩ := Option.map_eq_some_iff.1 hs
      simp only [Expr.value_store, Expr.erase_store]
      exact hexact a b ha hb symbol e he

/-- The difference of 3 and 8 is 5.  Nothing comes of 5 divided by `3 ÷ 0`, though that
quotient would have the value 0, and nothing of 5 divided by 0. -/
theorem combine_exact_three_eight :
    (∃ e, combine (.number 3) .sub (.number 8) = some e ∧ e.value = some 5 ∧
      e.leafValues.Perm [3, 8]) ∧
    (threeOverZero.Built ∧ combine (.number 5) .div threeOverZero = none) ∧
    combine (.number 0) .revDiv (.number 5) = none ∧
    ∃ s, Stored.combine (.number 3) .sub (.number 8) = .ok (some s) ∧ s.value = some 5 := by
  obtain ⟨hplain, hstored⟩ := combine_exact
  have hfive : |(3 : Rat) - 8| = 5 := by decide +kernel
  have haccepts : ¬ Symbol.sub.Refuses (some 3) (some 8) := by simp [Symbol.Refuses]
  have hnumber : ∀ v : Rat, (Expr.number v).leafValues = [v] := fun v => by
    rw [Expr.leafValues_eq_numbers, Expr.numbers]
  refine ⟨?_, ⟨built_threeOverZero, ?_⟩, ?_, ?_⟩
  · obtain ⟨hnone, hsome⟩ := hplain _ _ (.number 3) (.number 8) .sub
    obtain ⟨e, he⟩ := Option.ne_none_iff_exists'.1 fun h => haccepts (hnone.1 h)
    obtain ⟨v, w, hv, hw, hvalue, hleaves⟩ := hsome e he
    obtain rfl : (3 : Rat) = v := Option.some.inj hv
    obtain rfl : (8 : Rat) = w := Option.some.inj hw
    rw [hnumber, hnumber] at hleaves
    exact ⟨e, he, by rw [hvalue, Symbol.exact, hfive], hleaves⟩
  · have hvalue : threeOverZero.value = none := by decide +kernel
    exact (hplain _ _ (.number 5) built_threeOverZero .div).1.2 (.inr (.inl hvalue))
  · exact (hplain _ _ (.number 0) (.number 5) .revDiv).1.2 (.inr (.inr (.inr ⟨rfl, rfl⟩)))
  · obtain ⟨result, hresult, hnone, hsome⟩ := hstored _ _ (.number 3) (.number 8) .sub
    obtain ⟨s, rfl⟩ := Option.ne_none_iff_exists'.1 fun h => haccepts (hnone.1 h)
    obtain ⟨v, w, hv, hw, hvalue, -⟩ := hsome s rfl
    obtain rfl : (3 : Rat) = v := Option.some.inj hv
    obtain rfl : (8 : Rat) = w := Option.some.inj hw
    exact ⟨s, hresult, by rw [hvalue, Symbol.exact, hfive]⟩

/-! ## Exchanging the sides -/

/-- Exchanging the sides makes no difference, if a division is exchanged too and nothing
is subtracted. -/
theorem combine_mirror {a b : Expr} (ha : a.Canonical) (hb : b.Canonical)
    {symbol : Symbol} (h : symbol ≠ .sub) :
    combine a symbol b = combine b symbol.mirror a := by
  have hjoin : ∀ cls, a.join cls b false = b.join cls a false := by
    intro cls
    rw [Expr.join_eq_splice ha, Expr.join_eq_splice hb]
    exact Expr.splice_congr List.perm_append_comm
  cases symbol with
  | add | mul =>
    simp only [combine, Symbol.mirror, Symbol.arrange, Symbol.cls, Symbol.reverse, hjoin]
    rfl
  | sub => exact absurd rfl h
  | div | revDiv => rfl

/-- The larger side is the one that is subtracted from. -/
theorem combine_sub_of_lt {a b : Expr} {v w : Rat} (hv : a.value = some v)
    (hw : b.value = some w) (hlt : v < w) :
    combine a .sub b = combine b .sub a := by
  have hswap : Symbol.sub.arrange a b = some (b, a) := by
    simp [Symbol.arrange, hv, hw, hlt]
  have hkeep : Symbol.sub.arrange b a = some (b, a) := by
    simp [Symbol.arrange, hv, hw, hlt.le]
  rw [combine, hswap, combine, hkeep]

/-- Of two sides with the same value the right one is subtracted. -/
theorem combine_sub_of_eq {a b : Expr} {v : Rat} (ha : a.Canonical) (hv : a.value = some v)
    (hw : b.value = some v) :
    combine a .sub b = some (Expr.splice .additive a b true) := by
  have hkeep : Symbol.sub.arrange a b = some (a, b) := by
    simp [Symbol.arrange, hv, hw]
  have hvalue := Expr.value_splice hv hw .additive true
  rw [combine, hkeep]
  simp [Symbol.dividesByZero, Symbol.cls, Symbol.reverse, Expr.join_eq_splice ha, hvalue,
    OpClass.apply]

namespace Expr

/-- How often `x` is added in an expression, less how often it is subtracted.  An
expression that is not a sum is its own only summand. -/
def net (e x : Expr) : Int :=
  (e.terms .additive false).count ⟨false, x⟩ - (e.terms .additive false).count ⟨true, x⟩

/-- Whether the same summands remain of two expressions when what is subtracted is taken
from what is added.  Zeros do not count. -/
def SameNet (a b : Expr) : Prop :=
  ∀ x : Expr, x.value ≠ some 0 → a.net x = b.net x

/-- Turning operands around counts what they turn into. -/
theorem count_map_turn {cls : OpClass} {ops : List (Operand Expr)}
    (hops : ∀ o ∈ ops, o.Settled cls) {p : Operand Expr} (hp : p.Settled cls) :
    (ops.map (Operand.turn cls true)).count p = ops.count (p.turn cls true) := by
  rw [List.count_eq_countP, List.count_eq_countP, List.countP_map]
  refine List.countP_congr fun o ho => ?_
  -- a settled operand comes back from two turns
  have hback : ∀ q : Operand Expr, q.Settled cls →
      (q.turn cls true).turn cls true = q := fun q hq => by
    rw [Operand.turn_turn]
    exact hq
  simp only [Function.comp_apply, beq_iff_eq]
  constructor
  · rintro rfl
    exact (hback o (hops o ho)).symm
  · rintro rfl
    exact hback p hp

/-- A subtrahend contributes each of its operands turned around. -/
theorem Canonical.count_terms_true {e : Expr} (he : e.Canonical) {cls : OpClass}
    {p : Operand Expr} (hp : p.Settled cls) :
    (e.terms cls true).count p = (e.terms cls false).count (p.turn cls true) := by
  have hterms : e.terms cls true = (e.terms cls false).map (Operand.turn cls true) := by
    rw [map_turn_terms, Bool.false_bne]
  rw [hterms]
  exact count_map_turn (fun o ho => (he.mem_terms ho).2.2) hp

/-- Two differences of the same expressions are equal exactly if every operand occurs in
both equally often. -/
theorem splice_swap_iff_count {a b : Expr} (ha : a.Canonical) (hb : b.Canonical)
    (cls : OpClass) :
    splice cls a b true = splice cls b a true ↔
      ∀ p : Operand Expr, p.Settled cls →
        (a.terms cls false).count p + (b.terms cls false).count (p.turn cls true) =
          (b.terms cls false).count p + (a.terms cls false).count (p.turn cls true) := by
  have hcount : ∀ {x y : Expr}, x.Canonical → y.Canonical → ∀ p : Operand Expr,
      p.Settled cls → (x.terms cls false ++ y.terms cls true).count p =
        (x.terms cls false).count p + (y.terms cls false).count (p.turn cls true) :=
    fun _ hy p hp => by rw [List.count_append, hy.count_terms_true hp]
  constructor
  · intro hsame p hp
    rw [← hcount ha hb p hp, ← hcount hb ha p hp]
    refine List.perm_iff_count.1 ?_ p
    have hleft := operands_splice_perm cls a b true
    rw [hsame] at hleft
    exact hleft.symm.trans (operands_splice_perm cls b a true)
  · intro h
    refine splice_congr (List.perm_iff_count.2 fun p => ?_)
    by_cases hp : p.Settled cls
    · rw [hcount ha hb p hp, hcount hb ha p hp]
      exact h p hp
    · -- no expression contributes an identity that is reversed
      have hnot : ∀ {x y : Expr}, x.Canonical → y.Canonical →
          (x.terms cls false ++ y.terms cls true).count p = 0 := by
        intro x y hx hy
        refine List.count_eq_zero.2 fun hmem => hp ?_
        rcases List.mem_append.1 hmem with hmem | hmem
        · exact (hx.mem_terms hmem).2.2
        · exact (hy.mem_terms hmem).2.2
      rw [hnot ha hb, hnot hb ha]

/-- A difference is the same with its sides exchanged exactly if every summand that is
not zero comes out equally often on both sides. -/
theorem splice_swap_iff {a b : Expr} (ha : a.Canonical) (hb : b.Canonical) :
    splice .additive a b true = splice .additive b a true ↔ a.SameNet b := by
  rw [splice_swap_iff_count ha hb]
  have hturn : ∀ {x : Expr}, x.value ≠ some 0 → ∀ r,
      (⟨r, x⟩ : Operand Expr).turn .additive true = ⟨!r, x⟩ := by
    intro x hx r
    have hneutral : x.isNeutral .additive = false := by
      rw [← Bool.not_eq_true, isNeutral_iff]
      exact hx
    simp [Operand.turn, term_eq, hneutral]
  constructor
  · intro h x hx
    have hadded := h ⟨false, x⟩ (Operand.settled_iff.2 fun _ => hx)
    rw [hturn hx, Bool.not_false] at hadded
    rw [net, net]
    omega
  · rintro h ⟨r, x⟩ hp
    by_cases hx : x.value = some 0
    · -- a summand zero is never subtracted, so turning leaves it as it is
      have hforward : r = false := by
        cases r with
        | false => rfl
        | true => exact absurd hx (Operand.settled_iff.1 hp rfl)
      have hneutral : x.isNeutral .additive = true := isNeutral_iff.2 hx
      have hstays : (⟨r, x⟩ : Operand Expr).turn .additive true = ⟨r, x⟩ := by
        simp [Operand.turn, term_eq, hneutral, hforward]
      rw [hstays, Nat.add_comm]
    · have hnet := h x hx
      rw [net, net] at hnet
      rw [hturn hx]
      cases r <;> simp only [Bool.not_false, Bool.not_true] <;> omega

end Expr

/-- Exchanging the sides of a subtraction keeps the value.  It keeps the expression too,
if the sides have different values or the same summands. -/
theorem exists_combine_sub_swap {a b : Expr} {v w : Rat} (ha : a.Canonical)
    (hb : b.Canonical) (hv : a.value = some v) (hw : b.value = some w) :
    ∃ e f, combine a .sub b = some e ∧ combine b .sub a = some f ∧ e.value = f.value ∧
      (e = f ↔ v ≠ w ∨ a.SameNet b) := by
  by_cases hvw : v = w
  · subst hvw
    refine ⟨_, _, combine_sub_of_eq ha hv hw, combine_sub_of_eq hb hw hv, ?_, ?_⟩
    · rw [Expr.value_splice hv hw, Expr.value_splice hw hv]
    · rw [Expr.splice_swap_iff ha hb]
      simp
  · have hsame : combine a .sub b = combine b .sub a := by
      rcases lt_or_gt_of_ne hvw with hlt | hlt
      · exact combine_sub_of_lt hv hw hlt
      · exact (combine_sub_of_lt hw hv hlt).symm
    obtain ⟨e, he⟩ : ∃ e, combine a .sub b = some e := by
      refine Option.ne_none_iff_exists'.1 fun hnone => ?_
      rw [combine_eq_none_iff ha hb, hv, hw] at hnone
      simp [Symbol.Refuses] at hnone
    exact ⟨e, e, he, hsame ▸ he, rfl, iff_of_true rfl (.inl hvw)⟩

/-- Combining two expressions in the other order gives the same, unless one is subtracted
from the other.  A difference keeps its value, and it is the same expression exactly if
the values of the two differ or the same summands remain of both.  It is the same with
stored values. -/
theorem combine_swap :
    (∀ a b : Expr, a.Built → b.Built →
      (∀ symbol : Symbol, symbol ≠ .sub →
        combine a symbol b = combine b symbol.mirror a) ∧
      ∀ v w, a.value = some v → b.value = some w →
        ∃ e f, combine a .sub b = some e ∧ combine b .sub a = some f ∧
          e.value = f.value ∧ (e = f ↔ v ≠ w ∨ a.SameNet b)) ∧
    ∀ a b : Stored, a.Built → b.Built →
      (∀ symbol : Symbol, symbol ≠ .sub →
        Stored.combine a symbol b = Stored.combine b symbol.mirror a) ∧
      ∀ v w, a.value = some v → b.value = some w →
        ∃ s t, Stored.combine a .sub b = .ok (some s) ∧
          Stored.combine b .sub a = .ok (some t) ∧ s.value = t.value ∧
          (s.same t = true ↔ v ≠ w ∨ a.erase.SameNet b.erase) := by
  constructor
  · intro a b ha hb
    exact ⟨fun _ h => combine_mirror ha.canonical hb.canonical h,
      fun v w hv hw => exists_combine_sub_swap ha.canonical hb.canonical hv hw⟩
  · intro a b ha hb
    obtain ⟨x, hx, rfl⟩ := ha.exists_store
    obtain ⟨y, hy, rfl⟩ := hb.exists_store
    constructor
    · intro symbol h
      rw [Stored.combine_store hx.canonical hy.canonical,
        Stored.combine_store hy.canonical hx.canonical,
        combine_mirror hx.canonical hy.canonical h]
    · intro v w hv hw
      rw [Expr.value_store] at hv hw
      obtain ⟨e, f, he, hf, hvalue, hiff⟩ :=
        exists_combine_sub_swap hx.canonical hy.canonical hv hw
      refine ⟨e.store, f.store, ?_, ?_, ?_, ?_⟩
      · rw [Stored.combine_store hx.canonical hy.canonical, he, Option.map_some]
      · rw [Stored.combine_store hy.canonical hx.canonical, hf, Option.map_some]
      · rw [Expr.value_store, Expr.value_store, hvalue]
      · rw [Stored.same_iff, Expr.erase_store, Expr.erase_store, Expr.erase_store,
          Expr.erase_store]
        exact hiff

/-- The sum `1 + 2`. -/
def onePlusTwo : Expr :=
  (Expr.number 1).join .additive (.number 2) false

theorem built_onePlusTwo : onePlusTwo.Built :=
  .join (.number 1) (.number 2) .additive false

/-- The sum `3 + 5 - 3`. -/
def fiveAndThrees : Expr :=
  ((Expr.number 5).join .additive (.number 3) false).join .additive (.number 3) true

theorem built_fiveAndThrees : fiveAndThrees.Built :=
  .join (.join (.number 5) (.number 3) .additive false) (.number 3) .additive true

/-- The quotient of 3 and 8 can be asked for from either side.  The two numbers have one
difference, and so have 5 and `3 + 5 - 3`, but 3 and `1 + 2` have two. -/
theorem combine_swap_three :
    combine (.number 3) .div (.number 8) = combine (.number 8) .revDiv (.number 3) ∧
    (∃ e, combine (.number 3) .sub (.number 8) = some e ∧
      combine (.number 8) .sub (.number 3) = some e) ∧
    (∃ e, combine (.number 5) .sub fiveAndThrees = some e ∧
      combine fiveAndThrees .sub (.number 5) = some e) ∧
    ∃ s t, Stored.combine (.number 3) .sub onePlusTwo.store = .ok (some s) ∧
      Stored.combine onePlusTwo.store .sub (.number 3) = .ok (some t) ∧
      s.value = t.value ∧ s.same t = false := by
  obtain ⟨hplain, hstored⟩ := combine_swap
  refine ⟨?_, ?_, ?_, ?_⟩
  · exact (hplain _ _ (.number 3) (.number 8)).1 .div (by decide)
  · obtain ⟨e, f, he, hf, -, hiff⟩ :=
      (hplain _ _ (.number 3) (.number 8)).2 3 8 (Expr.value_number 3) (Expr.value_number 8)
    obtain rfl : e = f := hiff.2 (.inl (by decide +kernel))
    exact ⟨e, he, hf⟩
  · have hvalue : fiveAndThrees.value = some 5 := by decide +kernel
    have hterms : fiveAndThrees.terms .additive false =
        [⟨false, .number 3⟩, ⟨false, .number 5⟩, ⟨true, .number 3⟩] := by decide +kernel
    -- what is added and subtracted again leaves nothing
    have hsame : (Expr.number 5).SameNet fiveAndThrees := by
      intro x _
      rw [Expr.net, Expr.net, hterms]
      simp [Expr.terms, List.count_cons]
    obtain ⟨e, f, he, hf, -, hiff⟩ := (hplain _ _ (.number 5) built_fiveAndThrees).2 5 5
      (Expr.value_number 5) hvalue
    obtain rfl : e = f := hiff.2 (.inr hsame)
    exact ⟨e, he, hf⟩
  · have hvalue : onePlusTwo.value = some 3 := by decide +kernel
    obtain ⟨s, t, hs, ht, hequal, hiff⟩ := (hstored _ _ (.number 3)
      (Stored.built_store built_onePlusTwo)).2 3 3 rfl ((Expr.value_store _).trans hvalue)
    refine ⟨s, t, hs, ht, hequal, ?_⟩
    rw [← Bool.not_eq_true, hiff, Expr.erase_store]
    rintro (hne | hsame)
    · exact hne rfl
    · exact absurd (hsame (.number 3) (by decide +kernel)) (by decide +kernel)

/-- The differences `3 - 1 - 2` and `1 + 2 - 3` of 3 and `1 + 2` are not equal. -/
theorem combine_sub_three_ne_one_plus_two :
    (Expr.number 3).Built ∧ onePlusTwo.Built ∧ (Expr.number 3).value = some 3 ∧
      onePlusTwo.value = some 3 ∧
      combine (.number 3) .sub onePlusTwo ≠ combine onePlusTwo .sub (.number 3) :=
  ⟨.number 3, built_onePlusTwo, by decide +kernel⟩

end TwentyFour
