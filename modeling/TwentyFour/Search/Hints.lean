import TwentyFour.Search.Solve

/-!
# Hints

A row of solutions that hints are taken from, one after the other and then from the start again.
-/

namespace TwentyFour

/-- Solutions, and the number of hints given so far. -/
structure Hints where
  answers : List Expr
  given : Nat
deriving DecidableEq, Repr

namespace Hints

/-- The solutions of a hand, with no hint given. -/
def ofHand (values : List Nat) (target : Int) : Hints :=
  ⟨solve values target, 0⟩

/-- The solution to give the next hint for; nothing if there are no solutions. -/
def next (hints : Hints) : Option (Expr × Hints) :=
  (hints.answers[hints.given % hints.answers.length]?).map fun e =>
    (e, { hints with given := hints.given + 1 })

theorem next_eq_none_iff (hints : Hints) : hints.next = none ↔ hints.answers = [] := by
  unfold next
  rw [Option.map_eq_none_iff, List.getElem?_eq_none_iff]
  constructor
  · intro h
    by_cases hpos : 0 < hints.answers.length
    · have := Nat.mod_lt hints.given hpos
      omega
    · exact List.eq_nil_of_length_eq_zero (by omega)
  · intro h
    simp [h]

end Hints

end TwentyFour
