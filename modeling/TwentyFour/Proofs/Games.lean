import TwentyFour.Game.Basic

/-!
# Games that can come up

* `Hand.answers_hint` and the lemmas beside it say what a hint leaves alone.
* `Game.dealt` is the game after a hand was dealt.  `Game.deal_eq` says that one
  is dealt as long as there are cards for it, and `Game.isSetEnd_refilled` that
  there are, once a set without enough cards has made way for the next one.
  `Game.newSet_or_newHand` tells the game apart from the one before.
* `Game.Reachable` are the games that dealing, hints, solved hands and new sets
  can lead to.  `count_bounds` bounds the cards of a hand, and `answered` says
  that every hand has the answers of its own numbers and its own target.
-/

namespace TwentyFour

/-! ## Hands -/

namespace Hand

@[simp] theorem values_hint (hand : Hand) : hand.hint.2.values = hand.values := by
  unfold hint
  split <;> rfl

@[simp] theorem target_hint (hand : Hand) : hand.hint.2.target = hand.target := by
  unfold hint
  split <;> rfl

/-- A hint moves on to the next answer and leaves the answers alone. -/
@[simp] theorem answers_hint (hand : Hand) : hand.hint.2.answers = hand.answers := by
  unfold hint
  split
  next => rfl
  next e hints hnext =>
    rw [Hints.next, Option.map_eq_some_iff] at hnext
    obtain ⟨e', -, heq⟩ := hnext
    rw [← (Prod.mk.inj heq).2]
    rfl

theorem hint_eq_none_iff (hand : Hand) : hand.hint.1 = none ↔ hand.answers = [] := by
  rw [answers, ← hand.hints.next_eq_none_iff, hint]
  split
  next hnone => simp [hnone]
  next e hints hsome => simp [hsome]

/-- The answers are those of the search for the numbers and the target of the hand. -/
def Answered (hand : Hand) : Prop :=
  hand.answers = solve hand.values hand.target

theorem answered_ofCards (cards : List Card) (faceToTen : Bool) (target : Int) :
    (ofCards cards faceToTen target).Answered :=
  rfl

theorem Answered.hint {hand : Hand} (h : hand.Answered) : hand.hint.2.Answered := by
  rw [Answered, answers_hint, values_hint, target_hint]
  exact h

theorem Answered.markSolved {hand : Hand} (h : hand.Answered) :
    hand.markSolved.Answered :=
  h

end Hand

namespace Game

/-! ## Dealing -/

/-- The hand that is dealt next, if there are cards for it. -/
def newHand (game : Game) (picks : Picks) (target : Int) : Hand :=
  .ofCards (drawCards game.options.count game.deck picks).1 game.options.faceToTen target

/-- The game after a hand was dealt. -/
def dealt (game : Game) (picks : Picks) (target : Int) : Game :=
  { game with
    deck := (drawCards game.options.count game.deck picks).2.1
    past := game.hands
    current := some (game.newHand picks target) }

/-- The picks left after a hand was dealt. -/
def picksLeft (game : Game) (picks : Picks) : Picks :=
  (drawCards game.options.count game.deck picks).2.2

/-- A hand is dealt as long as there are cards for it. -/
theorem deal_eq (game : Game) (picks : Picks) (target : Int) :
    game.deal picks target =
      if game.isSetEnd then none else some (game.dealt picks target, game.picksLeft picks) :=
  rfl

theorem deal_of_not_isSetEnd {game : Game} (h : game.isSetEnd = false) (picks : Picks)
    (target : Int) :
    game.deal picks target = some (game.dealt picks target, game.picksLeft picks) := by
  rw [deal_eq, if_neg (by simp [h])]

theorem eq_dealt_of_deal {game next : Game} {picks left : Picks} {target : Int}
    (h : game.deal picks target = some (next, left)) : next = game.dealt picks target := by
  rw [deal_eq] at h
  split at h
  · simp at h
  · exact (Prod.mk.inj (Option.some.inj h)).1.symm

/-- A full deck has cards for a hand. -/
theorem isSetEnd_reset {game : Game} (h : game.options.count ≤ deckSize) :
    game.reset.isSetEnd = false := by
  have hdeck : game.reset.deck.length = deckSize := length_deck
  rw [isSetEnd, hdeck]
  exact decide_eq_false (Nat.not_lt.2 h)

/-- The game to deal the next hand from: a new set, if this one has too few cards
left. -/
def refilled (game : Game) : Game :=
  if game.isSetEnd then game.reset else game

theorem isSetEnd_refilled {game : Game} (h : game.options.count ≤ deckSize) :
    game.refilled.isSetEnd = false := by
  unfold refilled
  split
  next => exact isSetEnd_reset h
  next hcards => simpa using hcards

/-- The next hand begins a new set, or it comes behind those of the set. -/
theorem newSet_or_newHand (game : Game) (picks : Picks) (target : Int) :
    ((game.refilled.dealt picks target).set = game.set + 1 ∧
        (game.refilled.dealt picks target).hands.length = 1) ∨
      ((game.refilled.dealt picks target).set = game.set ∧
        (game.refilled.dealt picks target).hands.length = game.hands.length + 1) := by
  unfold refilled
  split
  · exact .inl ⟨rfl, rfl⟩
  · refine .inr ⟨rfl, ?_⟩
    rw [hands, List.length_append]
    rfl

theorem mem_hands_updateCurrent {game : Game} {f : Hand → Hand} {hand : Hand}
    (h : hand ∈ (game.updateCurrent f).hands) :
    hand ∈ game.hands ∨ ∃ before ∈ game.hands, hand = f before := by
  rcases List.mem_append.1 h with hpast | hcurrent
  · exact .inl (List.mem_append_left _ hpast)
  · obtain ⟨before, hbefore, rfl⟩ :=
      Option.map_eq_some_iff.1 (Option.mem_toList.1 hcurrent)
    exact .inr ⟨before, List.mem_append_right _ (Option.mem_toList.2 hbefore), rfl⟩

/-! ## Reachable games -/

/-- The games that can come up. -/
inductive Reachable : Game → Prop where
  | start (options : PlayOptions) : Reachable (start options)
  | deal {game next : Game} {picks left : Picks} {target : Int} :
      Reachable game → game.deal picks target = some (next, left) → Reachable next
  | hint {game : Game} :
      Reachable game → Reachable (game.updateCurrent fun hand => hand.hint.2)
  | solved {game : Game} :
      Reachable game → Reachable (game.updateCurrent Hand.markSolved)
  | reset {game : Game} : Reachable game → Reachable game.reset

namespace Reachable

variable {game : Game}

/-- A hand has at least one card and at most a deck. -/
theorem count_bounds (h : game.Reachable) :
    0 < game.options.count ∧ game.options.count ≤ deckSize := by
  induction h with
  | start options =>
    show 0 < max 1 (min options.count deckSize) ∧
      max 1 (min options.count deckSize) ≤ deckSize
    have hdeck : 0 < deckSize := by decide
    omega
  | deal _ hdeal ih =>
    rw [eq_dealt_of_deal hdeal]
    exact ih
  | hint _ ih => exact ih
  | solved _ ih => exact ih
  | reset _ ih => exact ih

/-- Every hand keeps the answers of the numbers and the target it was dealt with. -/
theorem answered (h : game.Reachable) : ∀ hand ∈ game.hands, hand.Answered := by
  induction h with
  | start options => simp [Game.start]
  | deal _ hdeal ih =>
    rw [eq_dealt_of_deal hdeal]
    intro hand hmem
    rcases List.mem_append.1 hmem with hpast | hcurrent
    · exact ih hand hpast
    · rw [List.mem_singleton.1 hcurrent]
      exact Hand.answered_ofCards _ _ _
  | hint _ ih =>
    intro hand hmem
    rcases mem_hands_updateCurrent hmem with hold | ⟨before, hbefore, rfl⟩
    · exact ih hand hold
    · exact (ih before hbefore).hint
  | solved _ ih =>
    intro hand hmem
    rcases mem_hands_updateCurrent hmem with hold | ⟨before, hbefore, rfl⟩
    · exact ih hand hold
    · exact (ih before hbefore).markSolved
  | reset _ _ => simp

theorem refilled (h : game.Reachable) : game.refilled.Reachable := by
  unfold Game.refilled
  split
  · exact h.reset
  · exact h

/-- There are always cards for the next hand. -/
theorem isSetEnd_refilled (h : game.Reachable) : game.refilled.isSetEnd = false :=
  Game.isSetEnd_refilled h.count_bounds.2

theorem dealt (h : game.Reachable) (hcards : game.isSetEnd = false) (picks : Picks)
    (target : Int) : (game.dealt picks target).Reachable :=
  h.deal (deal_of_not_isSetEnd hcards picks target)

end Reachable

end Game

end TwentyFour
