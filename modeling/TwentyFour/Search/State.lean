import TwentyFour.Distinct
import TwentyFour.Expr.Combine
import TwentyFour.Search.Pairs

/-!
# Search states

A state holds the expressions that have not been combined yet, in order.  Its children replace two
members by what one operation makes of them.

Two prunings happen here.  A pair of members is tried once, also if equal members stand at several
positions, and an operation whose result has the value of an earlier result of the same pair is
skipped.
-/

namespace TwentyFour

/-- Expressions that have not been combined yet, in order. -/
structure State where
  members : List Expr
deriving DecidableEq, Hashable, Repr

namespace State

/-- The state of the given expressions. -/
def ofList (es : List Expr) : State :=
  ⟨Expr.sort es⟩

/-- The state that a hand of numbers starts from. -/
def ofValues (values : List Nat) : State :=
  ofList (values.map fun (v : Nat) => .number (v : Rat))

/-- The number of members. -/
def size (s : State) : Nat :=
  s.members.length

/-- Whether there are members left to combine. -/
def isReducible (s : State) : Bool :=
  1 < s.size

/-- The member of a finished state. -/
def single? (s : State) : Option Expr :=
  match s.members with
  | [e] => some e
  | _ => none

end State

/-- What the operations make of two expressions, in the order of `Symbol.all`, without the results
whose value an earlier one has. -/
def results (left right : Expr) : List Expr :=
  distinctOn Expr.value (Symbol.all.filterMap fun symbol => combine left symbol right)

namespace State

/-- The state in which a pair of members is replaced by `e`. -/
def replace (p : Pair Expr) (e : Expr) : State :=
  ofList (p.rest ++ [e])

/-- The pairs of members, each kept at its first position. -/
def distinctPairs (s : State) : List (Pair Expr) :=
  distinctOn (fun p => (p.left, p.right)) (pairs s.members)

/-- Every state that is reached by combining one pair of members. -/
def children (s : State) : List State :=
  s.distinctPairs.flatMap fun p => (results p.left p.right).map (replace p)

@[simp] theorem size_ofList (es : List Expr) : (ofList es).size = es.length := by
  simp [ofList, size, Expr.sort]

/-- Each round takes one member away. -/
theorem size_of_mem_children {s child : State} (h : child ∈ s.children) :
    child.size + 1 = s.size := by
  simp only [children, distinctPairs, List.mem_flatMap, List.mem_map] at h
  obtain ⟨p, hmem, e, -, rfl⟩ := h
  have hlength := (perm_of_mem_pairs (mem_of_mem_distinctOn hmem)).length_eq
  rw [replace, size_ofList]
  simpa [size] using hlength

end State

end TwentyFour
