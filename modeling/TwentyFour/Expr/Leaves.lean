import TwentyFour.Expr.Order

/-!
# The numbers of an expression

`Leaves` visits the numbers of an expression depth first, from left to right, with a stack of
expressions still to be visited.  `pop` takes one of them off, and `next` goes on until there is a
number.  `Expr.numbers` lists the numbers by recursion on the tree, and the two agree
(`leafValues_eq_numbers`).
-/

namespace TwentyFour

namespace Expr

mutual

/-- The numbers of an expression, from left to right. -/
def numbers : Expr → List Rat
  | .number v => [v]
  | .compound _ ops => operandNumbers ops

/-- The numbers of a list of operands, from left to right. -/
def operandNumbers : List (Operand Expr) → List Rat
  | [] => []
  | ⟨_, e⟩ :: rest => e.numbers ++ operandNumbers rest

end

mutual

/-- The number of nodes of an expression. -/
def size : Expr → Nat
  | .number _ => 1
  | .compound _ ops => operandsSize ops + 1

/-- The number of nodes below a compound. -/
def operandsSize : List (Operand Expr) → Nat
  | [] => 0
  | ⟨_, e⟩ :: rest => e.size + operandsSize rest

end

theorem size_pos (e : Expr) : 0 < e.size := by
  cases e <;> simp [size]

theorem operandNumbers_eq_flatMap (ops : List (Operand Expr)) :
    operandNumbers ops = (ops.map (·.expr)).flatMap numbers := by
  induction ops with
  | nil => simp [operandNumbers]
  | cons o rest ih => simp [operandNumbers, ih]

/-- The number of nodes of several expressions. -/
def totalSize : List Expr → Nat
  | [] => 0
  | e :: rest => e.size + totalSize rest

theorem totalSize_append (es fs : List Expr) :
    totalSize (es ++ fs) = totalSize es + totalSize fs := by
  induction es with
  | nil => simp [totalSize]
  | cons e es ih => simp [totalSize, ih, Nat.add_assoc]

theorem totalSize_map_expr (ops : List (Operand Expr)) :
    totalSize (ops.map (·.expr)) = operandsSize ops := by
  induction ops with
  | nil => simp [operandsSize, totalSize]
  | cons o rest ih => simp [operandsSize, totalSize, ih]

end Expr

/-! ## Visiting with a stack -/

/-- A visit of the numbers of an expression that is under way. -/
structure Leaves where
  /-- The expressions still to be visited, the next one first. -/
  stack : List Expr

namespace Leaves

/-- The visit of all of `e`. -/
def ofExpr (e : Expr) : Leaves :=
  ⟨[e]⟩

/-- The number of nodes that are still to be visited. -/
def size (visit : Leaves) : Nat :=
  Expr.totalSize visit.stack

/-- Takes an expression off the stack, if there is one.  A number is handed out, and a compound
makes way for its operands. -/
def pop : Leaves → Option (Option Rat × Leaves)
  | ⟨[]⟩ => none
  | ⟨.number v :: rest⟩ => some (some v, ⟨rest⟩)
  | ⟨.compound _ ops :: rest⟩ => some (none, ⟨ops.map (·.expr) ++ rest⟩)

/-- One node is visited at a time. -/
theorem size_pop {visit rest : Leaves} {out : Option Rat} (h : visit.pop = some (out, rest)) :
    rest.size + 1 = visit.size := by
  match visit with
  | ⟨[]⟩ => simp [pop] at h
  | ⟨.number v :: es⟩ =>
    obtain ⟨-, rfl⟩ := Prod.mk.inj (Option.some.inj h)
    simp only [size, Expr.totalSize, Expr.size]
    omega
  | ⟨.compound cls ops :: es⟩ =>
    obtain ⟨-, rfl⟩ := Prod.mk.inj (Option.some.inj h)
    simp only [size, Expr.size, Expr.totalSize, Expr.totalSize_append, Expr.totalSize_map_expr]
    omega

/-- The next number, and the visit after it; nothing at the end.  Expressions are taken off the
stack until one of them is a number. -/
def next (visit : Leaves) : Option (Rat × { rest : Leaves // rest.size < visit.size }) :=
  match htaken : visit.pop with
  | none => none
  | some (some v, rest) => some (v, ⟨rest, Nat.lt_of_succ_le (Nat.le_of_eq (size_pop htaken))⟩)
  | some (none, rest) =>
    have hshorter : rest.size < visit.size := Nat.lt_of_succ_le (Nat.le_of_eq (size_pop htaken))
    match next rest with
    | none => none
    | some (v, ⟨after, hlt⟩) => some (v, ⟨after, Nat.lt_trans hlt hshorter⟩)
termination_by visit.size

/-- The numbers still to be visited. -/
def toList (visit : Leaves) : List Rat :=
  match visit.next with
  | none => []
  | some (v, ⟨rest, _⟩) => v :: toList rest
termination_by visit.size

end Leaves

namespace Expr

/-- The numbers an expression is made of, from left to right. -/
def leafValues (e : Expr) : List Rat :=
  (Leaves.ofExpr e).toList

/-- Whether the expression is made of exactly these numbers, in any order.  Both lists are sorted
before they are compared. -/
def usesExactly (e : Expr) (values : List Nat) : Bool :=
  sortBy compareRat e.leafValues == sortBy compareRat (values.map fun (v : Nat) => (v : Rat))

end Expr

/-! ## The two agree -/

namespace Leaves

theorem pop_eq_none_iff {visit : Leaves} : visit.pop = none ↔ visit.stack = [] := by
  match visit with
  | ⟨[]⟩ => simp [pop]
  | ⟨.number v :: es⟩ => simp [pop]
  | ⟨.compound cls ops :: es⟩ => simp [pop]

/-- What is handed out comes in front of what is still to be visited. -/
theorem numbers_pop {visit rest : Leaves} {out : Option Rat}
    (h : visit.pop = some (out, rest)) :
    visit.stack.flatMap Expr.numbers = out.toList ++ rest.stack.flatMap Expr.numbers := by
  match visit with
  | ⟨[]⟩ => simp [pop] at h
  | ⟨.number v :: es⟩ =>
    obtain ⟨rfl, rfl⟩ := Prod.mk.inj (Option.some.inj h)
    simp [Expr.numbers]
  | ⟨.compound cls ops :: es⟩ =>
    obtain ⟨rfl, rfl⟩ := Prod.mk.inj (Option.some.inj h)
    simp [Expr.numbers, Expr.operandNumbers_eq_flatMap]

theorem toList_of_pop_none {visit : Leaves} (h : visit.pop = none) : visit.toList = [] := by
  have hended : visit.next = none := by
    rw [next]
    split <;> simp_all
  rw [toList, hended]

theorem toList_of_pop_number {visit rest : Leaves} {v : Rat}
    (h : visit.pop = some (some v, rest)) : visit.toList = v :: rest.toList := by
  have hlt : rest.size < visit.size := Nat.lt_of_succ_le (Nat.le_of_eq (size_pop h))
  have hfound : visit.next = some (v, ⟨rest, hlt⟩) := by
    rw [next]
    split <;> simp_all
  rw [toList, hfound]

theorem toList_of_pop_compound {visit rest : Leaves}
    (h : visit.pop = some (none, rest)) : visit.toList = rest.toList := by
  have honward : visit.next.map (fun found => (found.1, found.2.1)) =
      rest.next.map fun found => (found.1, found.2.1) := by
    rw [next]
    split
    next htaken => simp [h] at htaken
    next htaken => simp [h] at htaken
    next after htaken =>
      obtain rfl : rest = after := by simpa [h] using htaken
      cases rest.next with
      | none => rfl
      | some found => rfl
  rw [toList, toList]
  cases hhere : visit.next <;> cases hthere : rest.next <;> simp_all

/-- A visit yields the numbers of the expressions on its stack. -/
theorem toList_eq_flatMap (visit : Leaves) :
    visit.toList = visit.stack.flatMap Expr.numbers := by
  rcases htaken : visit.pop with _ | ⟨_ | v, rest⟩
  · rw [toList_of_pop_none htaken, pop_eq_none_iff.1 htaken, List.flatMap_nil]
  · have := size_pop htaken
    rw [toList_of_pop_compound htaken, numbers_pop htaken, toList_eq_flatMap rest]
    rfl
  · have := size_pop htaken
    rw [toList_of_pop_number htaken, numbers_pop htaken, toList_eq_flatMap rest]
    rfl
termination_by visit.size

end Leaves

/-- The stack visits every number once, from left to right. -/
theorem Expr.leafValues_eq_numbers (e : Expr) : e.leafValues = e.numbers := by
  simp [leafValues, Leaves.ofExpr, Leaves.toList_eq_flatMap]

end TwentyFour
