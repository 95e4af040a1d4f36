import TwentyFour.Proofs.Stored

/-!
# One order, one sorting

Expressions that store their values are compared without looking at these, and so is the
equality of expressions decided.  The order is total all the same, and its equality is that
one.

* `TotalOrder cmp same` collects the laws.  `totalOrder_of_map` carries them over from a
  comparison that is known to be lawful, here from expressions without stored values.
* `SortsOneWay cmp sort xs` says that sorting the members `xs` has one result.
  `sortsOneWay_of_eq` needs that different members never compare equal.  Of stored
  expressions this holds only if what they store is exact: `Built.eq_of_compare`.
* `Stored.totalOrder_and_sortsOneWay` is the result, for operands and for members of a state.
-/

namespace TwentyFour

variable {α β : Type}

/-! ## Total orders -/

/-- The laws of a total order whose equality is `same`. -/
structure TotalOrder (cmp : α → α → Ordering) (same : α → α → Bool) : Prop where
  /-- One is below the other, or they are equal; and only one of the three. -/
  exactly_one : ∀ a b, [(cmp a b).isLT, same a b, (cmp b a).isLT].count true = 1
  eq_iff : ∀ a b, cmp a b = .eq ↔ same a b = true
  swap : ∀ a b, cmp b a = (cmp a b).swap
  isLE_trans : ∀ a b c, (cmp a b).isLE → (cmp b c).isLE → (cmp a c).isLE

section Map

variable {cmp : α → α → Ordering} {cmp' : β → β → Ordering} {f : α → β}

/-- What is compared through a map is ordered if its images are. -/
theorem transCmp_of_map [Std.TransCmp cmp'] (h : ∀ a b, cmp' (f a) (f b) = cmp a b) :
    Std.TransCmp cmp where
  eq_swap {a b} := by
    rw [← h a b, ← h b a]
    exact Std.OrientedCmp.eq_swap
  isLE_trans {a b c} := by
    rw [← h a b, ← h b c, ← h a c]
    exact Std.TransCmp.isLE_trans

theorem totalOrder_of_map [Std.TransCmp cmp'] [Std.LawfulEqCmp cmp']
    {same : α → α → Bool} (h : ∀ a b, cmp' (f a) (f b) = cmp a b)
    (hsame : ∀ a b, same a b = true ↔ f a = f b) : TotalOrder cmp same := by
  have : Std.TransCmp cmp := transCmp_of_map h
  have heq (a b : α) : cmp a b = .eq ↔ same a b = true := by
    rw [hsame, ← h, Std.LawfulEqCmp.compare_eq_iff_eq]
  have hswap (a b : α) : cmp b a = (cmp a b).swap := Std.OrientedCmp.eq_swap
  refine ⟨fun a b => ?_, heq, hswap, fun a b c => Std.TransCmp.isLE_trans⟩
  rw [hswap a b]
  cases hcmp : cmp a b with
  | eq => simp [(heq a b).1 hcmp]
  | lt | gt =>
    have hne : same a b = false := by
      rw [← Bool.not_eq_true, ← heq, hcmp]
      simp
    simp [hne]

end Map

/-! ## One sorting -/

/-- Sorting the members `xs` has one result: in whatever order they arrive, what `sort`
makes of them is their only arrangement in which no member is above a later one. -/
def SortsOneWay (cmp : α → α → Ordering) (sort : List α → List α) (xs : List α) : Prop :=
  ∀ arrived, arrived.Perm xs → ∀ sorted,
    sorted.Perm xs ∧ SortedBy cmp sorted ↔ sorted = sort arrived

/-- Members that are different wherever they do not compare equal are sorted in one way. -/
theorem sortsOneWay_of_eq {cmp : α → α → Ordering} [Std.TransCmp cmp] {xs : List α}
    (h : ∀ x ∈ xs, ∀ y ∈ xs, cmp x y = .eq → x = y) :
    SortsOneWay cmp (sortBy cmp) xs := by
  intro arrived harrived sorted
  have hperm : (sortBy cmp arrived).Perm xs := (sortBy_perm cmp arrived).trans harrived
  have hsorted : SortedBy cmp (sortBy cmp arrived) := sortedBy_sortBy arrived
  constructor
  · rintro ⟨hsame, hs⟩
    refine List.Perm.eq_of_pairwise ?_ hs hsorted (hsame.trans hperm.symm)
    intro x y hx hy hxy hyx
    exact h x (hsame.mem_iff.1 hx) y (hperm.mem_iff.1 hy)
      (Std.OrientedCmp.isLE_antisymm hxy hyx)
  · rintro rfl
    exact ⟨hperm, hsorted⟩

/-! ## Expressions that store their values -/

/-- The operand without its stored values. -/
def Operand.erase (o : Operand Stored) : Operand Expr :=
  ⟨o.reverse, o.expr.erase⟩

namespace Stored

theorem compareOperand_erase (a b : Operand Stored) :
    Operand.compare a.erase b.erase = compareOperand a b := rfl

instance : Std.TransCmp compare :=
  transCmp_of_map compare_erase

instance : Std.TransCmp compareOperand :=
  transCmp_of_map compareOperand_erase

theorem erase_eq_of_compare {s t : Stored} (h : s.compare t = .eq) : s.erase = t.erase := by
  rw [← compare_erase] at h
  exact Std.LawfulEqCmp.eq_of_compare h

/-- What can be built is known from the expression without its values. -/
theorem Built.eq_of_erase {s t : Stored} (hs : Built s) (ht : Built t)
    (h : s.erase = t.erase) : s = t := by
  obtain ⟨a, -, rfl⟩ := hs.exists_store
  obtain ⟨b, -, rfl⟩ := ht.exists_store
  rw [Expr.erase_store, Expr.erase_store] at h
  rw [h]

theorem Built.eq_of_compare {s t : Stored} (hs : Built s) (ht : Built t)
    (h : s.compare t = .eq) : s = t :=
  hs.eq_of_erase ht (erase_eq_of_compare h)

theorem eq_of_compareOperand {a b : Operand Stored} (ha : Built a.expr) (hb : Built b.expr)
    (h : compareOperand a b = .eq) : a = b := by
  rw [compareOperand_eq, Ordering.then_eq_eq] at h
  obtain ⟨hreverse, hexpr⟩ := h
  have hflag : a.reverse = b.reverse := Std.LawfulEqCmp.eq_of_compare hreverse
  have hsame := ha.eq_of_compare hb hexpr
  cases a
  cases b
  simp_all

/-- The order of expressions is total, and its equality is the equality of expressions,
although neither looks at the stored values; every number is below every compound.  Operands
and members of a state can be sorted in one way only, in whatever order they arrive. -/
theorem totalOrder_and_sortsOneWay :
    TotalOrder compare same ∧
    TotalOrder Expr.compare (fun a b => decide (a = b)) ∧
    (∀ s t : Stored, s.erase.compare t.erase = s.compare t ∧
      (s.same t = true ↔ s.erase = t.erase)) ∧
    (∀ v cls ops value, (number v).compare (compound cls ops value) = .lt) ∧
    (∀ ops : List (Operand Stored), (∀ o ∈ ops, Built o.expr) →
      SortsOneWay compareOperand sort ops) ∧
    (∀ members : List Stored, (∀ s ∈ members, Built s) →
      SortsOneWay compare (sortBy compare) members) ∧
    (∀ ops, SortsOneWay Operand.compare Operand.sort ops) ∧
    ∀ members, SortsOneWay Expr.compare (fun es => (State.ofList es).members) members := by
  have hstored : TotalOrder compare same := totalOrder_of_map compare_erase same_iff
  have hplain : TotalOrder Expr.compare (fun a b => decide (a = b)) :=
    totalOrder_of_map (f := id) (fun _ _ => rfl) (by simp)
  refine ⟨hstored, hplain, fun s t => ⟨compare_erase s t, same_iff s t⟩, ?_, ?_, ?_, ?_, ?_⟩
  · intro v cls ops value
    rw [compare]
  · intro ops hops
    exact sortsOneWay_of_eq fun a ha b hb => eq_of_compareOperand (hops a ha) (hops b hb)
  · intro members hmembers
    exact sortsOneWay_of_eq fun s hs t ht => (hmembers s hs).eq_of_compare (hmembers t ht)
  · intro ops
    exact sortsOneWay_of_eq fun a _ b _ => Std.LawfulEqCmp.eq_of_compare
  · intro members
    exact sortsOneWay_of_eq fun s _ t _ => Std.LawfulEqCmp.eq_of_compare

/-- Operands of `(4 - 1) + 5 - 1` that are not flattened and come last one first. -/
def backwardOperands : List (Operand Stored) :=
  [⟨true, .number 1⟩, ⟨false, .number 5⟩, ⟨false, fourLessOne⟩]

theorem built_fourLessOne : Built fourLessOne := by
  have hjoin : (number 4).join .additive (number 1) true = .ok fourLessOne := by
    with_unfolding_all rfl
  exact .join (.number 4) (.number 1) hjoin

/-- These operands, and the members `4 - 1` and `5`, are sorted in one way. -/
theorem totalOrder_and_sortsOneWay_four_less_one :
    (∀ o ∈ backwardOperands, Built o.expr) ∧
    (∀ sorted, sorted.Perm backwardOperands ∧ SortedBy compareOperand sorted ↔
      sorted = [⟨false, number 5⟩, ⟨false, fourLessOne⟩, ⟨true, number 1⟩]) ∧
    (∀ s ∈ [fourLessOne, number 5], Built s) ∧
    ∀ sorted, sorted.Perm [fourLessOne, number 5] ∧ SortedBy compare sorted ↔
      sorted = [number 5, fourLessOne] := by
  have hops : ∀ o ∈ backwardOperands, Built o.expr := by
    simpa [backwardOperands] using ⟨Built.number 1, Built.number 5, built_fourLessOne⟩
  have hmembers : ∀ s ∈ [fourLessOne, number 5], Built s := by
    simpa using ⟨built_fourLessOne, Built.number 5⟩
  have hsort : sort backwardOperands =
      [⟨false, number 5⟩, ⟨false, fourLessOne⟩, ⟨true, number 1⟩] := by
    with_unfolding_all rfl
  have hsort' : sortBy compare [fourLessOne, number 5] = [number 5, fourLessOne] := by
    with_unfolding_all rfl
  obtain ⟨-, -, -, -, hone, hone', -, -⟩ := totalOrder_and_sortsOneWay
  rw [← hsort, ← hsort']
  exact ⟨hops, hone _ hops _ (.refl _), hmembers, hone' _ hmembers _ (.refl _)⟩

end Stored

end TwentyFour
