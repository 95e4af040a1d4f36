/-!
# Picks

The numbers that decide which cards are dealt.  A draw from `n` cards takes the next number modulo
`n`; when the numbers are used up it takes the first card.
-/

namespace TwentyFour

/-- The numbers for the draws to come. -/
structure Picks where
  upcoming : List Nat
deriving DecidableEq, Repr

/-- A position below `n`, and the picks after it. -/
def Picks.draw (picks : Picks) (n : Nat) : Nat × Picks :=
  match picks.upcoming with
  | [] => (0, picks)
  | p :: rest => (p % n, ⟨rest⟩)

theorem Picks.draw_lt (picks : Picks) {n : Nat} (hpos : 0 < n) : (picks.draw n).1 < n := by
  unfold draw
  split
  · exact hpos
  · exact Nat.mod_lt _ hpos

end TwentyFour
