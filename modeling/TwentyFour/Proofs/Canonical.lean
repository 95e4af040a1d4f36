import TwentyFour.Expr.Combine
import TwentyFour.Expr.Leaves
import TwentyFour.Proofs.Order

/-!
# Canonical expressions

Every way to build an expression keeps one invariant at every compound, and on
expressions with the invariant all of them do the same thing: they splice.

* `CanonicalOperands` is the invariant of one compound, and `Expr.Canonical`
  asks for it at every compound of an expression.
* `Operand.turn` turns an operand of a compound around when the compound is
  subtracted or divided by.  `turn_turn` says that two turns are one, and it
  carries the algebra of this module.
* `Expr.splice` is the compound of the operands of two expressions.
  `pair_eq_splice`, `join_eq_splice` and `push?_eq_splice` reduce the three
  operations to it, and `terms_splice` gives the operands of the result.
* `numbers_splice_perm` says that no number is lost or made up.
* `Expr.Built` lists the ways to build an expression, and `Built.canonical` is
  the invariant of everything that can be built.
-/

namespace TwentyFour

/-! ## Turning operands around -/

namespace Expr

/-- The class of a compound; a number has none. -/
def cls? : Expr → Option OpClass
  | .number _ => none
  | .compound cls _ => some cls

theorem eq_compound_of_cls? {e : Expr} {cls : OpClass} (h : e.cls? = some cls) :
    e = .compound cls e.operands := by
  cases e with
  | number v => simp [cls?] at h
  | compound c ops =>
    simp only [cls?, Option.some.injEq] at h
    rw [h, operands]

/-- Whether the expression has the identity of the class as its value. -/
def isNeutral (cls : OpClass) (e : Expr) : Bool :=
  e.value.any cls.isIdentity

theorem isNeutral_iff {cls : OpClass} {e : Expr} :
    e.isNeutral cls = true ↔ e.value = some cls.identity := by
  unfold isNeutral
  cases e.value <;> simp [OpClass.isIdentity]

theorem term_eq (cls : OpClass) (e : Expr) (reverse : Bool) :
    term cls e reverse = ⟨reverse && !e.isNeutral cls, e⟩ := rfl

@[simp] theorem term_expr (cls : OpClass) (e : Expr) (reverse : Bool) :
    (term cls e reverse).expr = e := rfl

@[simp] theorem term_false (cls : OpClass) (e : Expr) :
    term cls e false = ⟨false, e⟩ := rfl

end Expr

namespace Operand

/-- An operand of a compound of class `cls`, turned around if `reverse` is set.
An identity stays as it is. -/
def turn (cls : OpClass) (reverse : Bool) (o : Operand Expr) : Operand Expr :=
  Expr.term cls o.expr (o.reverse != reverse)

theorem turn_term (cls : OpClass) (e : Expr) (r s : Bool) :
    (Expr.term cls e r).turn cls s = Expr.term cls e (r != s) := by
  simp only [turn, Expr.term_eq]
  cases e.isNeutral cls <;> simp

/-- Turning twice is turning once or not at all. -/
theorem turn_turn (cls : OpClass) (r s : Bool) (o : Operand Expr) :
    (o.turn cls r).turn cls s = o.turn cls (r != s) := by
  have hterm := turn_term cls o.expr (o.reverse != r) s
  rw [Bool.bne_assoc] at hterm
  exact hterm

/-- Whether the operand is stored as a compound of class `cls` stores it: it is
not reversed if it is an identity. -/
def Settled (cls : OpClass) (o : Operand Expr) : Prop :=
  o.turn cls false = o

theorem settled_iff {cls : OpClass} {o : Operand Expr} :
    o.Settled cls ↔ (o.reverse = true → o.expr.value ≠ some cls.identity) := by
  rcases o with ⟨r, e⟩
  simp only [Settled, turn, Expr.term_eq, Bool.bne_false, mk.injEq, and_true,
    ne_eq, ← Expr.isNeutral_iff]
  cases r <;> simp

theorem settled_term (cls : OpClass) (e : Expr) (reverse : Bool) :
    (Expr.term cls e reverse).Settled cls := by
  rw [Settled, turn_term, Bool.bne_false]

theorem settled_turn (cls : OpClass) (reverse : Bool) (o : Operand Expr) :
    (o.turn cls reverse).Settled cls := by
  rw [Settled, turn_turn, Bool.bne_false]

end Operand

namespace Expr

/-! ## The operands an expression contributes -/

theorem terms_of_cls?_eq {cls : OpClass} {e : Expr} (h : e.cls? = some cls)
    (reverse : Bool) :
    e.terms cls reverse = e.operands.map (Operand.turn cls reverse) := by
  rw [eq_compound_of_cls? h]
  exact terms_compound_self cls _ reverse

theorem terms_of_cls?_ne {cls : OpClass} {e : Expr} (h : e.cls? ≠ some cls)
    (reverse : Bool) : e.terms cls reverse = [term cls e reverse] := by
  cases e with
  | number v => rfl
  | compound c ops =>
    refine terms_compound_of_ne ?_ ops reverse
    simpa [cls?] using h

/-- Turning what an expression contributes is contributing it turned. -/
theorem map_turn_terms (cls : OpClass) (e : Expr) (r s : Bool) :
    (e.terms cls r).map (Operand.turn cls s) = e.terms cls (r != s) := by
  by_cases h : e.cls? = some cls
  · rw [terms_of_cls?_eq h, terms_of_cls?_eq h, List.map_map]
    congr 1
    funext o
    exact Operand.turn_turn cls r s o
  · rw [terms_of_cls?_ne h, terms_of_cls?_ne h, List.map_singleton,
      Operand.turn_term]

theorem terms_ne_nil_of {cls : OpClass} {e : Expr} (reverse : Bool)
    (h : e.cls? = some cls → e.operands ≠ []) : e.terms cls reverse ≠ [] := by
  by_cases hcls : e.cls? = some cls
  · simpa [terms_of_cls?_eq hcls] using h hcls
  · simp [terms_of_cls?_ne hcls]

/-! ## Splicing -/

/-- The compound of class `cls` of what two expressions contribute to it, where
the second is subtracted or divided by if `reverse` is set. -/
def splice (cls : OpClass) (lhs rhs : Expr) (reverse : Bool) : Expr :=
  .compound cls (Operand.sort (lhs.terms cls false ++ rhs.terms cls reverse))

@[simp] theorem cls?_splice (cls : OpClass) (lhs rhs : Expr) (reverse : Bool) :
    (splice cls lhs rhs reverse).cls? = some cls := rfl

theorem operands_splice_perm (cls : OpClass) (lhs rhs : Expr) (reverse : Bool) :
    (splice cls lhs rhs reverse).operands.Perm
      (lhs.terms cls false ++ rhs.terms cls reverse) :=
  sortBy_perm _ _

/-- What a spliced expression contributes is what its two sides contribute. -/
theorem terms_splice (cls : OpClass) (lhs rhs : Expr) (r s : Bool) :
    ((splice cls lhs rhs r).terms cls s).Perm
      (lhs.terms cls s ++ rhs.terms cls (r != s)) := by
  have hturn := (operands_splice_perm cls lhs rhs r).map (Operand.turn cls s)
  rw [List.map_append, map_turn_terms, map_turn_terms, Bool.false_bne] at hturn
  rw [terms_of_cls?_eq (cls?_splice cls lhs rhs r)]
  exact hturn

/-- Splicing depends only on the operands that come together. -/
theorem splice_congr {cls : OpClass} {a b c d : Expr} {r s : Bool}
    (h : (a.terms cls false ++ b.terms cls r).Perm
      (c.terms cls false ++ d.terms cls s)) :
    splice cls a b r = splice cls c d s := by
  unfold splice Operand.sort
  rw [sortBy_eq_of_perm h]

theorem pair_eq_splice (cls : OpClass) (lhs rhs : Expr) (reverse : Bool) :
    pair cls lhs rhs reverse = splice cls lhs rhs reverse := by
  unfold pair splice insertTerms Operand.sort
  rw [sortBy_eq_of_perm ((sortBy_perm _ _).append_right _), List.nil_append]

end Expr

/-! ## The invariant -/

/-- What holds of the operands of every compound of class `cls`. -/
structure CanonicalOperands (cls : OpClass) (ops : List (Operand Expr)) : Prop where
  two_le : 2 ≤ ops.length
  sorted : SortedBy Operand.compare ops
  forward : ∃ o ∈ ops, o.reverse = false
  flat : ∀ o ∈ ops, o.expr.cls? ≠ some cls
  settled : ∀ o ∈ ops, o.Settled cls

/-- What comes before an operand that is not reversed is not reversed. -/
theorem Operand.forward_of_isLE {o p : Operand Expr} (hle : (compare o p).isLE)
    (hp : p.reverse = false) : o.reverse = false := by
  rw [compare, hp] at hle
  cases hreverse : o.reverse with
  | false => rfl
  | true =>
    rw [hreverse] at hle
    exact absurd (Ordering.isLE_left_of_isLE_then hle) (by decide)

/-- If any of sorted operands is not reversed, the first one is not. -/
theorem head_forward_of_sorted {o : Operand Expr} {rest : List (Operand Expr)}
    (hsorted : SortedBy Operand.compare (o :: rest))
    (hforward : ∃ p ∈ o :: rest, p.reverse = false) : o.reverse = false := by
  obtain ⟨p, hp, hforward⟩ := hforward
  rcases List.mem_cons.1 hp with rfl | hp
  · exact hforward
  · exact Operand.forward_of_isLE ((List.pairwise_cons.1 hsorted).1 p hp) hforward

/-- The first operand is never reversed. -/
theorem CanonicalOperands.head_forward {cls : OpClass} {o : Operand Expr}
    {rest : List (Operand Expr)} (h : CanonicalOperands cls (o :: rest)) :
    o.reverse = false :=
  head_forward_of_sorted h.sorted h.forward

namespace Expr

/-- The invariant of one compound holds at every compound of the expression. -/
inductive Canonical : Expr → Prop where
  | number (v : Rat) : Canonical (.number v)
  | compound {cls : OpClass} {ops : List (Operand Expr)}
      (hops : CanonicalOperands cls ops) (hsub : ∀ o ∈ ops, Canonical o.expr) :
      Canonical (.compound cls ops)

theorem Canonical.operands_of_cls? {e : Expr} {cls : OpClass} (he : e.Canonical)
    (h : e.cls? = some cls) : CanonicalOperands cls e.operands := by
  cases he with
  | number v => simp [cls?] at h
  | compound hops hsub =>
    simp only [cls?, Option.some.injEq] at h
    subst h
    exact hops

theorem Canonical.canonical_of_mem {e : Expr} (he : e.Canonical) {o : Operand Expr}
    (ho : o ∈ e.operands) : o.expr.Canonical := by
  cases he with
  | number v => simp [operands] at ho
  | compound hops hsub => exact hsub o ho

/-- A compound contributes its operands as they are. -/
theorem CanonicalOperands.map_turn_false {cls : OpClass} {ops : List (Operand Expr)}
    (h : CanonicalOperands cls ops) : ops.map (Operand.turn cls false) = ops :=
  (List.map_congr_left h.settled).trans (List.map_id ops)

theorem Canonical.terms_false {e : Expr} {cls : OpClass} (he : e.Canonical)
    (h : e.cls? = some cls) : e.terms cls false = e.operands := by
  rw [terms_of_cls?_eq h]
  exact CanonicalOperands.map_turn_false (he.operands_of_cls? h)

/-- The invariant of the operands that an expression contributes. -/
theorem Canonical.mem_terms {e : Expr} {cls : OpClass} {reverse : Bool}
    (he : e.Canonical) {o : Operand Expr} (ho : o ∈ e.terms cls reverse) :
    o.expr.Canonical ∧ o.expr.cls? ≠ some cls ∧ o.Settled cls := by
  by_cases h : e.cls? = some cls
  · rw [terms_of_cls?_eq h, List.mem_map] at ho
    obtain ⟨p, hp, rfl⟩ := ho
    have hcanonical : p.expr.Canonical := he.canonical_of_mem hp
    exact ⟨hcanonical, (he.operands_of_cls? h).flat p hp,
      Operand.settled_turn cls reverse p⟩
  · rw [terms_of_cls?_ne h, List.mem_singleton] at ho
    subst ho
    exact ⟨he, h, Operand.settled_term cls e reverse⟩

theorem Canonical.terms_ne_nil {e : Expr} (he : e.Canonical) (cls : OpClass)
    (reverse : Bool) : e.terms cls reverse ≠ [] := by
  refine terms_ne_nil_of reverse fun h hnil => ?_
  have hlength := (he.operands_of_cls? h).two_le
  rw [hnil] at hlength
  simp at hlength

theorem Canonical.exists_forward {e : Expr} (he : e.Canonical) (cls : OpClass) :
    ∃ o ∈ e.terms cls false, o.reverse = false := by
  by_cases h : e.cls? = some cls
  · rw [he.terms_false h]
    exact (he.operands_of_cls? h).forward
  · rw [terms_of_cls?_ne h]
    exact ⟨_, List.mem_singleton_self _, rfl⟩

/-- Splicing keeps the invariant. -/
theorem Canonical.splice {lhs rhs : Expr} (hl : lhs.Canonical) (hr : rhs.Canonical)
    (cls : OpClass) (reverse : Bool) :
    (Expr.splice cls lhs rhs reverse).Canonical := by
  have hperm := operands_splice_perm cls lhs rhs reverse
  have hmem : ∀ o ∈ (Expr.splice cls lhs rhs reverse).operands,
      o.expr.Canonical ∧ o.expr.cls? ≠ some cls ∧ o.Settled cls := by
    intro o ho
    rcases List.mem_append.1 (hperm.mem_iff.1 ho) with ho | ho
    · exact hl.mem_terms ho
    · exact hr.mem_terms ho
  refine Canonical.compound ⟨?_, sortedBy_sortBy _, ?_, ?_, ?_⟩
    fun o ho => (hmem o ho).1
  · have hpos := List.length_pos_iff.2 (hl.terms_ne_nil cls false)
    have hpos' := List.length_pos_iff.2 (hr.terms_ne_nil cls reverse)
    rw [Operand.sort, length_sortBy, List.length_append]
    omega
  · obtain ⟨o, ho, hforward⟩ := hl.exists_forward cls
    exact ⟨o, hperm.mem_iff.2 (List.mem_append_left _ ho), hforward⟩
  · exact fun o ho => (hmem o ho).2.1
  · exact fun o ho => (hmem o ho).2.2

theorem join_eq_splice {lhs : Expr} (hl : lhs.Canonical) (cls : OpClass) (rhs : Expr)
    (reverse : Bool) : lhs.join cls rhs reverse = Expr.splice cls lhs rhs reverse := by
  by_cases h : lhs.cls? = some cls
  · unfold Expr.splice
    rw [hl.terms_false h, eq_compound_of_cls? h]
    simp [join, insertTerms, operands]
  · cases lhs with
    | number v => exact pair_eq_splice cls _ rhs reverse
    | compound c ops =>
      have hne : c ≠ cls := by simpa [cls?] using h
      rw [join, if_neg hne, pair_eq_splice]

theorem push?_eq_splice {e e' : Expr} (he : e.Canonical) {rhs : Expr} {reverse : Bool}
    (h : e.push? rhs reverse = some e') :
    ∃ cls, e.cls? = some cls ∧ e' = Expr.splice cls e rhs reverse := by
  cases e with
  | number v => simp [push?] at h
  | compound cls ops =>
    refine ⟨cls, rfl, ?_⟩
    rw [← join_eq_splice he]
    simpa [push?, join] using h.symm

/-! ## The numbers of a spliced expression -/

theorem operandNumbers_perm {xs ys : List (Operand Expr)} (h : xs.Perm ys) :
    (operandNumbers xs).Perm (operandNumbers ys) := by
  rw [operandNumbers_eq_flatMap, operandNumbers_eq_flatMap]
  exact (h.map _).flatMap_right _

theorem operandNumbers_append (xs ys : List (Operand Expr)) :
    operandNumbers (xs ++ ys) = operandNumbers xs ++ operandNumbers ys := by
  simp [operandNumbers_eq_flatMap]

/-- An expression contributes its own numbers. -/
theorem operandNumbers_terms (cls : OpClass) (e : Expr) (reverse : Bool) :
    operandNumbers (e.terms cls reverse) = e.numbers := by
  by_cases h : e.cls? = some cls
  · have hnumbers : e.numbers = operandNumbers e.operands := by
      conv_lhs => rw [eq_compound_of_cls? h]
      rw [numbers]
    rw [terms_of_cls?_eq h, hnumbers, operandNumbers_eq_flatMap,
      operandNumbers_eq_flatMap, List.map_map]
    rfl
  · simp [terms_of_cls?_ne h, operandNumbers_eq_flatMap]

theorem numbers_splice_perm (cls : OpClass) (lhs rhs : Expr) (reverse : Bool) :
    (Expr.splice cls lhs rhs reverse).numbers.Perm (lhs.numbers ++ rhs.numbers) := by
  have hperm := operandNumbers_perm (operands_splice_perm cls lhs rhs reverse)
  rw [operandNumbers_append, operandNumbers_terms, operandNumbers_terms] at hperm
  rw [Expr.splice, numbers]
  exact hperm

/-! ## Everything that can be built -/

/-- The expressions that the operations of this library can build. -/
inductive Built : Expr → Prop where
  | number (v : Rat) : Built (.number v)
  | join {lhs rhs : Expr} (hl : Built lhs) (hr : Built rhs) (cls : OpClass)
      (reverse : Bool) : Built (lhs.join cls rhs reverse)
  | combine {lhs rhs e : Expr} (hl : Built lhs) (hr : Built rhs) {symbol : Symbol}
      (h : combine lhs symbol rhs = some e) : Built e
  | pair {lhs rhs : Expr} (hl : Built lhs) (hr : Built rhs) (cls : OpClass)
      (reverse : Bool) : Built (pair cls lhs rhs reverse)
  | push {lhs rhs e : Expr} (hl : Built lhs) (hr : Built rhs) {reverse : Bool}
      (h : lhs.push? rhs reverse = some e) : Built e

end Expr

/-- `combine` joins its two sides in the order that the symbol asks for. -/
theorem exists_join_of_combine {left right e : Expr} {symbol : Symbol}
    (h : combine left symbol right = some e) :
    ∃ lhs rhs, symbol.arrange left right = some (lhs, rhs) ∧
      symbol.dividesByZero rhs = false ∧
      e = lhs.join symbol.cls rhs symbol.reverse ∧ e.value.isSome := by
  have hvalue := isSome_value_of_combine h
  unfold combine at h
  split at h
  · simp at h
  next lhs rhs harrange =>
    split at h
    · simp at h
    next hdivides =>
      dsimp only at h
      split at h
      · simp only [Option.some.injEq] at h
        exact ⟨lhs, rhs, harrange, by simpa using hdivides, h.symm, hvalue⟩
      · simp at h

theorem Symbol.arrange_cases {symbol : Symbol} {left right lhs rhs : Expr}
    (h : symbol.arrange left right = some (lhs, rhs)) :
    (lhs = left ∧ rhs = right) ∨ (lhs = right ∧ rhs = left) := by
  cases symbol with
  | add | mul | div | revDiv =>
    simp only [arrange, Option.some.injEq, Prod.mk.injEq] at h
    grind
  | sub =>
    simp only [arrange] at h
    split at h
    · split at h <;> simp_all
    · simp at h

namespace Expr

theorem Canonical.of_combine {left right e : Expr} {symbol : Symbol}
    (hl : left.Canonical) (hr : right.Canonical)
    (h : combine left symbol right = some e) : e.Canonical := by
  obtain ⟨lhs, rhs, harrange, -, rfl, -⟩ := exists_join_of_combine h
  rcases Symbol.arrange_cases harrange with ⟨rfl, rfl⟩ | ⟨rfl, rfl⟩
  · rw [join_eq_splice hl]
    exact hl.splice hr _ _
  · rw [join_eq_splice hr]
    exact hr.splice hl _ _

theorem numbers_combine_perm {left right e : Expr} {symbol : Symbol}
    (hl : left.Canonical) (hr : right.Canonical)
    (h : combine left symbol right = some e) :
    e.numbers.Perm (left.numbers ++ right.numbers) := by
  obtain ⟨lhs, rhs, harrange, -, rfl, -⟩ := exists_join_of_combine h
  rcases Symbol.arrange_cases harrange with ⟨rfl, rfl⟩ | ⟨rfl, rfl⟩
  · rw [join_eq_splice hl]
    exact numbers_splice_perm _ _ _ _
  · rw [join_eq_splice hr]
    exact (numbers_splice_perm _ _ _ _).trans List.perm_append_comm

/-- Everything that can be built is canonical. -/
theorem Built.canonical {e : Expr} (h : Built e) : e.Canonical := by
  induction h with
  | number v => exact Canonical.number v
  | join _ _ cls reverse ihl ihr =>
    rw [join_eq_splice ihl]
    exact ihl.splice ihr cls reverse
  | combine _ _ h ihl ihr => exact ihl.of_combine ihr h
  | pair _ _ cls reverse ihl ihr =>
    rw [pair_eq_splice]
    exact ihl.splice ihr cls reverse
  | push _ _ h ihl ihr =>
    obtain ⟨cls, -, rfl⟩ := push?_eq_splice ihl h
    exact ihl.splice ihr cls _

end Expr

end TwentyFour
