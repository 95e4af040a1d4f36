import TwentyFour.Game.Picks

/-!
# Cards

A deck holds thirteen ranks in four suits.  Cards are drawn from anywhere in the deck, and the last
card takes the place of the one that was drawn; drawing loses no card (`perm_drawCards`).
-/

namespace TwentyFour

/-- The suit of a card. -/
inductive Suit where
  | spades
  | hearts
  | diamonds
  | clubs
deriving DecidableEq, Repr

namespace Suit

/-- The suits in the order of a fresh deck. -/
def all : List Suit :=
  [.spades, .hearts, .diamonds, .clubs]

/-- The code point of the ace of the suit. -/
def ace : Suit → Nat
  | .spades => 0x1f0a1
  | .hearts => 0x1f0b1
  | .diamonds => 0x1f0c1
  | .clubs => 0x1f0d1

end Suit

/-- A playing card.  Aces have rank 1 and kings rank 13. -/
structure Card where
  rank : Nat
  suit : Suit
deriving DecidableEq, Repr

namespace Card

/-- The number that the card stands for. -/
def value (card : Card) (faceToTen : Bool) : Nat :=
  if faceToTen && 10 < card.rank then 10 else card.rank

/-- The character for the card.  Unicode has a knight between jack and queen, which is left out. -/
def glyph (card : Card) : Char :=
  Char.ofNat (card.suit.ace + card.rank - 1 + if 11 < card.rank then 1 else 0)

end Card

/-- The number of cards in a deck. -/
def deckSize : Nat := 52

/-- A fresh deck, ordered by rank. -/
def deck : List Card :=
  (List.range 13).flatMap fun i => Suit.all.map fun suit => ⟨i + 1, suit⟩

theorem length_deck : deck.length = deckSize := by decide

/-- Takes the card at a position out of a deck.  The last card takes its place. -/
def takeCard (cards : List Card) (i : Nat) : Option (Card × List Card) :=
  match cards[i]?, cards.getLast? with
  | some card, some last => some (card, (cards.set i last).dropLast)
  | _, _ => none

/-- Draws cards one after the other: the cards drawn, those left, and the picks left. -/
def drawCards : Nat → List Card → Picks → List Card × List Card × Picks
  | 0, cards, picks => ([], cards, picks)
  | n + 1, cards, picks =>
    match takeCard cards (picks.draw cards.length).1 with
    | none => ([], cards, picks)
    | some (card, left) =>
      let (drawn, left, picks) := drawCards n left (picks.draw cards.length).2
      (card :: drawn, left, picks)

/-- Taking a card out loses no other card. -/
theorem perm_takeCard {cards left : List Card} {card : Card} {i : Nat}
    (h : takeCard cards i = some (card, left)) : (card :: left).Perm cards := by
  unfold takeCard at h
  split at h
  next c last hcard hlast =>
    obtain ⟨rfl, rfl⟩ : c = card ∧ (cards.set i last).dropLast = left := by simpa using h
    obtain ⟨front, rfl⟩ := List.getLast?_eq_some_iff.1 hlast
    obtain ⟨hlt, hhere⟩ := List.getElem?_eq_some_iff.1 hcard
    by_cases hfront : i < front.length
    · rw [List.getElem_append_left hfront] at hhere
      obtain ⟨before, behind, rfl, rfl⟩ :
          ∃ before behind, front = before ++ c :: behind ∧ before.length = i :=
        ⟨front.take i, front.drop (i + 1), by simp [← hhere], by simp; omega⟩
      have hswapped : ((before ++ c :: behind ++ [last]).set before.length last).dropLast =
          before ++ last :: behind := by
        rw [List.set_append_left _ _ hfront, List.dropLast_concat]
        simp
      rw [hswapped]
      calc (c :: (before ++ last :: behind)).Perm (c :: last :: (before ++ behind)) :=
            List.perm_middle.cons c
        _ |>.Perm (last :: c :: (before ++ behind)) := .swap _ _ _
        _ |>.Perm (last :: (before ++ c :: behind)) := List.perm_middle.symm.cons last
        _ |>.Perm (before ++ c :: behind ++ [last]) := (List.perm_append_singleton _ _).symm
    · have hi : i = front.length := by simp at hlt; omega
      subst hi
      have hsame : last = c := by simpa using hhere
      subst hsame
      simpa using (List.perm_append_singleton last front).symm
  · simp at h

/-- Drawing loses no card. -/
theorem perm_drawCards (n : Nat) (cards : List Card) (picks : Picks) :
    ((drawCards n cards picks).1 ++ (drawCards n cards picks).2.1).Perm cards := by
  induction n generalizing cards picks with
  | zero => exact .refl _
  | succ n ih =>
    unfold drawCards
    split
    · exact .refl _
    next card left htaken => exact ((ih left _).cons card).trans (perm_takeCard htaken)

end TwentyFour
