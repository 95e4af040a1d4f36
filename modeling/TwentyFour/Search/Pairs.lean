/-!
# Pairs of members

`pairs xs` lists every way to take two members out of a list: the one that stands earlier, the one
that stands later, and the others in order.  Positions count, so equal members give several pairs.
-/

namespace TwentyFour

variable {α : Type}

/-- Two members of a list and the others. -/
structure Pair (α : Type) where
  /-- The member that stands earlier. -/
  left : α
  /-- The member that stands later. -/
  right : α
  /-- All other members, in order. -/
  rest : List α

/-- Every member of a list with the members that remain without it. -/
def selections : List α → List (α × List α)
  | [] => []
  | x :: xs => (x, xs) :: (selections xs).map fun (y, rest) => (y, x :: rest)

/-- Every way to take two members out of a list. -/
def pairs : List α → List (Pair α)
  | [] => []
  | x :: xs =>
    ((selections xs).map fun (y, rest) => ⟨x, y, rest⟩) ++
      (pairs xs).map fun p => ⟨p.left, p.right, x :: p.rest⟩

theorem perm_of_mem_selections {xs : List α} {y : α} {rest : List α}
    (h : (y, rest) ∈ selections xs) : (y :: rest).Perm xs := by
  induction xs generalizing y rest with
  | nil => simp [selections] at h
  | cons x xs ih =>
    simp only [selections, List.mem_cons, List.mem_map, Prod.mk.injEq, Prod.exists] at h
    rcases h with ⟨rfl, rfl⟩ | ⟨z, others, hmem, rfl, rfl⟩
    · exact .refl _
    · exact (List.Perm.swap x z others).trans ((ih hmem).cons x)

/-- A pair and the rest are the members of the list. -/
theorem perm_of_mem_pairs {xs : List α} {p : Pair α} (h : p ∈ pairs xs) :
    (p.left :: p.right :: p.rest).Perm xs := by
  induction xs generalizing p with
  | nil => simp [pairs] at h
  | cons x xs ih =>
    simp only [pairs, List.mem_append, List.mem_map, Prod.exists] at h
    rcases h with ⟨y, rest, hmem, rfl⟩ | ⟨q, hmem, rfl⟩
    · exact (perm_of_mem_selections hmem).cons x
    · have hmoved : (q.left :: q.right :: x :: q.rest).Perm (x :: q.left :: q.right :: q.rest) :=
        ((List.Perm.swap x q.right q.rest).cons q.left).trans (.swap x q.left _)
      exact hmoved.trans ((ih hmem).cons x)

end TwentyFour
