import Mathlib.Algebra.Order.Ring.Rat
import TwentyFour.Expr.Order

/-!
# The order of expressions is total

The comparison of expressions is a total order whose equality is equality of
the trees, so a multiset of operands or of state members can be sorted in one
way only.

* `TotalAt cmp a` collects the laws of a total order for the comparisons that
  have `a` on the left.  Expressions are nested, so the laws are proved at one
  expression from the laws at its operands, by `Expr.induct`.
* `TotalAt.lex` is the lexicographic step.  `totalAt_compareOperands` and
  `Expr.totalAt` follow the two mutual functions that compare trees.
* The instances give `Std.TransCmp` and `Std.LawfulEqCmp` for expressions and
  for operands.
* `sortBy_eq_of_perm` and `sortBy_eq_iff_perm` are what the other modules use:
  members that come in another order are sorted to the same list, and others
  are not.
-/

namespace TwentyFour

variable {α β : Type}

/-! ## The laws at one place -/

/-- The laws of a total order, for the comparisons with `a` on the left. -/
structure TotalAt (cmp : α → α → Ordering) (a : α) : Prop where
  eq_iff : ∀ b, cmp a b = .eq ↔ a = b
  swap : ∀ b, cmp b a = (cmp a b).swap
  lt_of_lt_of_isLE : ∀ b c, cmp a b = .lt → (cmp b c).isLE → cmp a c = .lt

theorem totalAt_of_lawful {cmp : α → α → Ordering} [Std.TransCmp cmp]
    [Std.LawfulEqCmp cmp] (a : α) : TotalAt cmp a where
  eq_iff _ := Std.LawfulEqCmp.compare_eq_iff_eq
  swap _ := Std.OrientedCmp.eq_swap
  lt_of_lt_of_isLE _ _ := Std.TransCmp.lt_of_lt_of_isLE

theorem lawfulEqCmp_of_totalAt {cmp : α → α → Ordering}
    (h : ∀ a, TotalAt cmp a) : Std.LawfulEqCmp cmp where
  compare_self {a} := ((h a).eq_iff a).2 rfl
  eq_of_compare {a b} hab := ((h a).eq_iff b).1 hab

theorem transCmp_of_totalAt {cmp : α → α → Ordering}
    (h : ∀ a, TotalAt cmp a) : Std.TransCmp cmp where
  eq_swap {a b} := (h b).swap a
  isLE_trans {a b c} hab hbc := by
    rcases Ordering.isLE_iff_eq_lt_or_eq_eq.1 hab with hlt | heq
    · rw [(h a).lt_of_lt_of_isLE b c hlt hbc]
      rfl
    · rw [((h a).eq_iff b).1 heq]
      exact hbc

/-- The lexicographic order of pairs is total where both parts are. -/
theorem TotalAt.lex {f : α → α → Ordering} {g : β → β → Ordering} {a : α} {b : β}
    (hf : TotalAt f a) (hg : TotalAt g b) :
    TotalAt (fun p q => (f p.1 q.1).then (g p.2 q.2)) (a, b) where
  eq_iff := by
    rintro ⟨c, d⟩
    simp only [Ordering.then_eq_eq, hf.eq_iff, hg.eq_iff, Prod.mk.injEq]
  swap := by
    rintro ⟨c, d⟩
    simp only [hf.swap c, hg.swap d, Ordering.swap_then]
  lt_of_lt_of_isLE := by
    rintro ⟨c, d⟩ ⟨c', d'⟩ hlt hle
    simp only [Ordering.then_eq_lt, Ordering.isLE_then_iff_or] at hlt hle ⊢
    rcases hlt with hac | ⟨hac, hbd⟩
    · refine Or.inl (hf.lt_of_lt_of_isLE c c' hac ?_)
      rcases hle with hcc | ⟨hcc, -⟩ <;> rw [hcc] <;> rfl
    · have hsame : a = c := (hf.eq_iff c).1 hac
      subst hsame
      rcases hle with hcc | ⟨hcc, hdd⟩
      · exact Or.inl hcc
      · exact Or.inr ⟨hcc, hg.lt_of_lt_of_isLE d d' hbd hdd⟩

/-- The laws carry over along a key that tells members apart. -/
theorem TotalAt.of_key {cmp : α → α → Ordering} {f : β → β → Ordering} {a : α}
    (key : α → β) (hinj : ∀ b, key a = key b → a = b)
    (hkey : ∀ x y, cmp x y = f (key x) (key y)) (h : TotalAt f (key a)) :
    TotalAt cmp a where
  eq_iff b := by
    rw [hkey, h.eq_iff]
    exact ⟨hinj b, fun hab => by rw [hab]⟩
  swap b := by rw [hkey, hkey, h.swap]
  lt_of_lt_of_isLE b c := by
    rw [hkey, hkey, hkey]
    exact h.lt_of_lt_of_isLE (key b) (key c)

/-! ## Rationals, classes and operands -/

theorem compareRat_eq_lt {v w : Rat} : compareRat v w = .lt ↔ v < w := by
  unfold compareRat
  split_ifs <;> simp_all

theorem compareRat_eq_eq {v w : Rat} : compareRat v w = .eq ↔ v = w := by
  unfold compareRat
  split_ifs with hlt heq
  · simp [hlt.ne]
  · simp [heq]
  · simp [heq]

theorem compareRat_isLE {v w : Rat} : (compareRat v w).isLE ↔ v ≤ w := by
  rw [Ordering.isLE_iff_eq_lt_or_eq_eq, compareRat_eq_lt, compareRat_eq_eq,
    le_iff_lt_or_eq]

theorem compareRat_swap (v w : Rat) : compareRat w v = (compareRat v w).swap := by
  rcases lt_trichotomy v w with h | h | h
  · simp [compareRat, h, h.not_gt, h.ne']
  · simp [compareRat, h]
  · simp [compareRat, h, h.not_gt, h.ne']

theorem totalAt_compareRat (v : Rat) : TotalAt compareRat v where
  eq_iff _ := compareRat_eq_eq
  swap w := compareRat_swap v w
  lt_of_lt_of_isLE w x hvw hwx := by
    rw [compareRat_eq_lt] at hvw ⊢
    exact hvw.trans_le (compareRat_isLE.1 hwx)

instance : Std.TransCmp compareRat :=
  transCmp_of_totalAt totalAt_compareRat

instance : Std.LawfulEqCmp compareRat :=
  lawfulEqCmp_of_totalAt totalAt_compareRat

theorem totalAt_compareClass (cls : OpClass) : TotalAt Ord.compare cls where
  eq_iff b := by cases cls <;> cases b <;> decide
  swap b := by cases cls <;> cases b <;> rfl
  lt_of_lt_of_isLE b c := by cases cls <;> cases b <;> cases c <;> decide

/-- Operands are totally ordered where their expressions are. -/
theorem Operand.totalAt {o : Operand Expr} (h : TotalAt Expr.compare o.expr) :
    TotalAt Operand.compare o := by
  have hflag : TotalAt (Ord.compare (α := Bool)) o.reverse := totalAt_of_lawful _
  refine (hflag.lex h).of_key (fun o => (o.reverse, o.expr)) ?_ fun x y => rfl
  rintro ⟨r, e⟩ heq
  cases o
  simp_all

/-! ## Lists of operands and expressions -/

theorem totalAt_compareOperands {xs : List (Operand Expr)}
    (h : ∀ o ∈ xs, TotalAt Operand.compare o) :
    TotalAt Expr.compareOperands xs := by
  induction xs with
  | nil =>
    refine ⟨?_, ?_, ?_⟩
    · rintro (_ | _) <;> simp [Expr.compareOperands]
    · rintro (_ | _) <;> simp [Expr.compareOperands]
    · rintro (_ | _) (_ | _) <;> simp [Expr.compareOperands]
  | cons x xs ih =>
    have hx : TotalAt Operand.compare x := h x List.mem_cons_self
    have hxs := ih fun o ho => h o (List.mem_cons_of_mem x ho)
    have hlex := hx.lex hxs
    refine ⟨?_, ?_, ?_⟩
    · rintro (_ | ⟨y, ys⟩)
      · simp [Expr.compareOperands]
      · rw [Expr.compareOperands_cons, hlex.eq_iff (y, ys)]
        simp
    · rintro (_ | ⟨y, ys⟩)
      · simp [Expr.compareOperands]
      · rw [Expr.compareOperands_cons, Expr.compareOperands_cons]
        exact hlex.swap (y, ys)
    · rintro (_ | ⟨y, ys⟩) (_ | ⟨z, zs⟩)
      · simp [Expr.compareOperands]
      · simp [Expr.compareOperands]
      · simp [Expr.compareOperands]
      · rw [Expr.compareOperands_cons, Expr.compareOperands_cons,
          Expr.compareOperands_cons]
        exact hlex.lt_of_lt_of_isLE (y, ys) (z, zs)

namespace Expr

/-- The order of expressions is total at every expression. -/
theorem totalAt (e : Expr) : TotalAt compare e := by
  induction e using Expr.induct with
  | number v =>
    have hv := totalAt_compareRat v
    refine ⟨?_, ?_, ?_⟩
    · rintro (w | ⟨d, ys⟩)
      · simp [compare, hv.eq_iff w]
      · simp [compare]
    · rintro (w | ⟨d, ys⟩)
      · simp only [compare]
        exact hv.swap w
      · simp [compare]
    · rintro (w | ⟨d, ys⟩) (x | ⟨d', zs⟩)
      · simp only [compare]
        exact hv.lt_of_lt_of_isLE w x
      · simp [compare]
      · simp [compare]
      · simp [compare]
  | compound c xs ih =>
    have hlength : TotalAt (Ord.compare (α := Nat)) xs.length := totalAt_of_lawful _
    have hxs := totalAt_compareOperands fun o ho => Operand.totalAt (ih o ho)
    have hall := (totalAt_compareClass c).lex (hlength.lex hxs)
    refine ⟨?_, ?_, ?_⟩
    · rintro (w | ⟨d, ys⟩)
      · simp [compare]
      · simp only [compare]
        rw [hall.eq_iff (d, ys.length, ys)]
        simp only [Prod.mk.injEq, compound.injEq]
        exact ⟨fun h => ⟨h.1, h.2.2⟩, fun h => ⟨h.1, by rw [h.2], h.2⟩⟩
    · rintro (w | ⟨d, ys⟩)
      · simp [compare]
      · simp only [compare]
        exact hall.swap (d, ys.length, ys)
    · rintro (w | ⟨d, ys⟩) (x | ⟨d', zs⟩)
      · simp [compare]
      · simp [compare]
      · simp [compare]
      · simp only [compare]
        exact hall.lt_of_lt_of_isLE (d, ys.length, ys) (d', zs.length, zs)

instance : Std.TransCmp compare :=
  transCmp_of_totalAt totalAt

instance : Std.LawfulEqCmp compare :=
  lawfulEqCmp_of_totalAt totalAt

end Expr

namespace Operand

instance : Std.TransCmp compare :=
  transCmp_of_totalAt fun o => totalAt o.expr.totalAt

instance : Std.LawfulEqCmp compare :=
  lawfulEqCmp_of_totalAt fun o => totalAt o.expr.totalAt

end Operand

/-! ## Sorting has one result -/

section Sorting

variable {cmp : α → α → Ordering}

/-- No member is above a later one. -/
def SortedBy (cmp : α → α → Ordering) (xs : List α) : Prop :=
  xs.Pairwise fun x y => (cmp x y).isLE

theorem sortedBy_insertBy [Std.TransCmp cmp] {x : α} {ys : List α}
    (h : SortedBy cmp ys) : SortedBy cmp (insertBy cmp x ys) := by
  induction ys with
  | nil => exact List.pairwise_singleton _ _
  | cons y ys ih =>
    have hcons := List.pairwise_cons.1 h
    unfold insertBy
    split
    next hgt =>
      refine List.pairwise_cons.2 ⟨?_, ih hcons.2⟩
      intro z hz
      rcases List.mem_cons.1 ((insertBy_perm cmp x ys).mem_iff.1 hz) with rfl | hz
      · rw [Std.OrientedCmp.lt_of_gt hgt]
        rfl
      · exact hcons.1 z hz
    next hngt =>
      have hxy : (cmp x y).isLE := by
        cases hc : cmp x y with
        | lt | eq => rfl
        | gt => exact absurd hc hngt
      refine List.pairwise_cons.2 ⟨?_, h⟩
      intro z hz
      rcases List.mem_cons.1 hz with rfl | hz
      · exact hxy
      · exact Std.TransCmp.isLE_trans hxy (hcons.1 z hz)

theorem sortedBy_sortBy [Std.TransCmp cmp] (xs : List α) :
    SortedBy cmp (sortBy cmp xs) := by
  induction xs with
  | nil => exact List.Pairwise.nil
  | cons x xs ih => exact sortedBy_insertBy ih

/-- Sorted lists with the same members are equal. -/
theorem SortedBy.eq_of_perm [Std.TransCmp cmp] [Std.LawfulEqCmp cmp]
    {xs ys : List α} (hxs : SortedBy cmp xs) (hys : SortedBy cmp ys)
    (h : xs.Perm ys) : xs = ys := by
  refine h.eq_of_pairwise ?_ hxs hys
  intro x y _ _ hxy hyx
  exact Std.LawfulEqCmp.eq_of_compare (Std.OrientedCmp.isLE_antisymm hxy hyx)

/-- Sorting has one result, in whatever order the members come. -/
theorem sortBy_eq_of_perm [Std.TransCmp cmp] [Std.LawfulEqCmp cmp]
    {xs ys : List α} (h : xs.Perm ys) : sortBy cmp xs = sortBy cmp ys :=
  (sortedBy_sortBy xs).eq_of_perm (sortedBy_sortBy ys)
    ((sortBy_perm cmp xs).trans (h.trans (sortBy_perm cmp ys).symm))

/-- Two lists are sorted to the same list exactly if they have the same members. -/
theorem sortBy_eq_iff_perm [Std.TransCmp cmp] [Std.LawfulEqCmp cmp] {xs ys : List α} :
    sortBy cmp xs = sortBy cmp ys ↔ xs.Perm ys := by
  constructor
  · intro h
    have hsorted : (sortBy cmp xs).Perm ys := h ▸ sortBy_perm cmp ys
    exact (sortBy_perm cmp xs).symm.trans hsorted
  · exact sortBy_eq_of_perm

end Sorting

end TwentyFour
