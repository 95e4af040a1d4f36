import TwentyFour.Game.Hand

/-!
# Games

Hands are dealt from one deck at a time.  The hands of one deck make a set; a set ends when the
deck has fewer cards left than a hand needs.

The results of a set are counted in a `Summary`.  Its text tells all three counts
(`Summary.text_inj`).
-/

namespace TwentyFour

/-- How hands are dealt. -/
structure PlayOptions where
  /-- The number of cards in a hand. -/
  count : Nat
  /-- Whether jacks, queens and kings count as 10. -/
  faceToTen : Bool
  /-- Whether hands are shown as cards instead of numbers. -/
  showCards : Bool
deriving DecidableEq, Repr

/-- Four cards, shown as numbers from 1 to 13. -/
def PlayOptions.standard : PlayOptions :=
  ⟨4, false, false⟩

/-- The number of hands with each result. -/
structure Summary where
  solved : Nat
  hinted : Nat
  failed : Nat
deriving DecidableEq, Repr

/-- The results of hands, counted. -/
def Summary.ofHands (hands : List Hand) : Summary :=
  ⟨hands.countP (·.result = .solved), hands.countP (·.result = .hinted),
    hands.countP (·.result = .failed)⟩

/-- The summary in three lines. -/
def Summary.text (summary : Summary) : String :=
  "Total " ++ summary.solved.repr ++ " hands solved\n" ++
    "Total " ++ summary.hinted.repr ++ " hands solved with hint\n" ++
    "Total " ++ summary.failed.repr ++ " hands failed to solve"

/-- The text shows all three numbers: equal texts come from equal summaries. -/
theorem Summary.text_inj {a b : Summary} : a.text = b.text ↔ a = b := by
  -- Each number stands in front of a blank, so what follows can be told from it.
  have hblank : ' '.isDigit = false := by decide
  cases a
  cases b
  rw [← String.toList_inj, text, text]
  simp [toDigits_append_inj hblank]

/-- A game that is on. -/
structure Game where
  options : PlayOptions
  /-- The cards that are left. -/
  deck : List Card
  /-- The hands of this set that are over, in the order in which they were dealt. -/
  past : List Hand
  /-- The hand that was dealt last. -/
  current : Option Hand
  /-- The number of the set, from 1. -/
  set : Nat
deriving DecidableEq, Repr

namespace Game

/-- Starts a new set with a full deck. -/
def reset (game : Game) : Game :=
  { game with deck := TwentyFour.deck, past := [], current := none, set := game.set + 1 }

/-- Starts the first set.  A hand has at least one card and at most a deck. -/
def start (options : PlayOptions) : Game :=
  reset ⟨{ options with count := max 1 (min options.count deckSize) }, [], [], none, 0⟩

/-- The hands of this set, the current one last. -/
def hands (game : Game) : List Hand :=
  game.past ++ game.current.toList

/-- Whether the deck has fewer cards left than a hand needs. -/
def isSetEnd (game : Game) : Bool :=
  game.deck.length < game.options.count

/-- Deals a hand, which becomes the current one.  Nothing is dealt at the end of a set. -/
def deal (game : Game) (picks : Picks) (target : Int) : Option (Game × Picks) :=
  if game.isSetEnd then
    none
  else
    let (cards, deck, picks) := drawCards game.options.count game.deck picks
    let hand := Hand.ofCards cards game.options.faceToTen target
    some ({ game with deck := deck, past := game.hands, current := some hand }, picks)

/-- Changes the current hand. -/
def updateCurrent (game : Game) (f : Hand → Hand) : Game :=
  { game with current := game.current.map f }

/-- The results of the hands of this set. -/
def summary (game : Game) : Summary :=
  .ofHands game.hands

@[simp] theorem hands_reset (game : Game) : game.reset.hands = [] := rfl

end Game

end TwentyFour
