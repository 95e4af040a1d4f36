import TwentyFour.Game.Card
import TwentyFour.Search.Hints

/-!
# Hands

A hand is what is dealt at a time: cards, the numbers they stand for, the target that was in force,
and the solutions.  It also records how the player does.
-/

namespace TwentyFour

/-- How the player did on a hand. -/
inductive HandResult where
  /-- Solved without hints. -/
  | solved
  /-- Solved after a hint was asked for. -/
  | hinted
  /-- Skipped, given up, or not solved yet. -/
  | failed
deriving DecidableEq, Repr

/-- A hand, and the progress on it. -/
structure Hand where
  cards : List Card
  values : List Nat
  target : Int
  /-- The solutions, with the place of the next hint. -/
  hints : Hints
  /-- Whether a hint was asked for. -/
  hinted : Bool
  result : HandResult
deriving DecidableEq, Repr

namespace Hand

/-- A hand that has just been dealt. -/
def ofCards (cards : List Card) (faceToTen : Bool) (target : Int) : Hand :=
  let values := cards.map fun card => card.value faceToTen
  ⟨cards, values, target, .ofHand values target, false, .failed⟩

/-- Every solution of the hand. -/
def answers (hand : Hand) : List Expr :=
  hand.hints.answers

/-- The solution to give the next hint for.  Asking counts, even if there is nothing to hint
at. -/
def hint (hand : Hand) : Option Expr × Hand :=
  match hand.hints.next with
  | none => (none, { hand with hinted := true })
  | some (e, hints) => (some e, { hand with hinted := true, hints := hints })

/-- Records that the player solved the hand. -/
def markSolved (hand : Hand) : Hand :=
  { hand with result := if hand.hinted then .hinted else .solved }

/-- The hand as cards or as numbers. -/
def describe (hand : Hand) (showCards : Bool) : String :=
  if showCards then
    "  ".intercalate (hand.cards.map fun card => card.glyph.toString)
  else
    naturalsText " " hand.values

@[simp] theorem answers_markSolved (hand : Hand) : hand.markSolved.answers = hand.answers := rfl

/-- Asking for a hint marks the hand. -/
theorem hinted_hint (hand : Hand) : hand.hint.2.hinted = true := by
  unfold hint
  split <;> rfl

end Hand

end TwentyFour
