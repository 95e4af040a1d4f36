/-!
# Sorting by a comparison

The operands of a sum or product, the members of a search state and the numbers of a hand are all
kept in order.  `sortBy cmp` is insertion sort for any comparison; it is stable, so members that
compare equal stay in the order they came in.  Sorting only rearranges (`sortBy_perm`).
-/

namespace TwentyFour

variable {α : Type}

/-- Puts `x` in front of the first member that is not below it. -/
def insertBy (cmp : α → α → Ordering) (x : α) : List α → List α
  | [] => [x]
  | y :: ys =>
    match cmp x y with
    | .gt => y :: insertBy cmp x ys
    | _ => x :: y :: ys

/-- The members of a list in increasing order of `cmp`. -/
def sortBy (cmp : α → α → Ordering) : List α → List α
  | [] => []
  | x :: xs => insertBy cmp x (sortBy cmp xs)

theorem insertBy_perm (cmp : α → α → Ordering) (x : α) (ys : List α) :
    (insertBy cmp x ys).Perm (x :: ys) := by
  induction ys with
  | nil => exact .refl _
  | cons y ys ih =>
    unfold insertBy
    split
    · exact (ih.cons y).trans (.swap x y ys)
    · exact .refl _

/-- Sorting only rearranges. -/
theorem sortBy_perm (cmp : α → α → Ordering) (xs : List α) : (sortBy cmp xs).Perm xs := by
  induction xs with
  | nil => exact .refl _
  | cons x xs ih => exact (insertBy_perm cmp x _).trans (ih.cons x)

@[simp] theorem length_sortBy (cmp : α → α → Ordering) (xs : List α) :
    (sortBy cmp xs).length = xs.length :=
  (sortBy_perm cmp xs).length_eq

/-- Members that compare like those they come from are sorted like them. -/
theorem sortBy_map {β : Type} {cmp : α → α → Ordering} {cmp' : β → β → Ordering} {f : α → β}
    (h : ∀ x y, cmp' (f x) (f y) = cmp x y) (xs : List α) :
    sortBy cmp' (xs.map f) = (sortBy cmp xs).map f := by
  have hinsert (x : α) (ys : List α) :
      insertBy cmp' (f x) (ys.map f) = (insertBy cmp x ys).map f := by
    induction ys with
    | nil => rfl
    | cons y ys ih =>
      rw [List.map_cons, insertBy, insertBy, h]
      cases cmp x y <;> simp [ih]
  induction xs with
  | nil => rfl
  | cons x xs ih => rw [List.map_cons, sortBy, ih, hinsert, sortBy]

@[simp] theorem mem_sortBy {cmp : α → α → Ordering} {x : α} {xs : List α} :
    x ∈ sortBy cmp xs ↔ x ∈ xs :=
  (sortBy_perm cmp xs).mem_iff

end TwentyFour
