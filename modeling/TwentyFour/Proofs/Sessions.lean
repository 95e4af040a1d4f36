import TwentyFour.Proofs.Games
import TwentyFour.Session

/-!
# Sessions that can come up

* `Session.dealFrom_eq` says what dealing the next hand of a game does.  It never
  fails, since a set without cards for the hand makes way for the next one.
* `Session.Move` lists what a line can do to a session, and `move_execute` says
  that this is all.
* `Session.Continues` says what all lines leave alone but a numbered hint and the
  end of the game, and `continues_perform` goes through the commands.
* `Session.Playable` is the invariant of a session: a game that is on can come up
  and has a current hand.  `Playable.move` is its step, and `Reachable.playable`
  its run over the lines of a session.
-/

namespace TwentyFour

namespace Session

/-! ## Dealing -/

/-- What is said when the next hand of a game is dealt. -/
def dealtText (s : Session) (game : Game) : String :=
  (if game.isSetEnd then setEndText game else "") ++ setStartText game.refilled ++
    handText (game.refilled.dealt s.picks s.target)
      (game.refilled.newHand s.picks s.target)

/-- The session after the next hand of a game was dealt. -/
def withDealt (s : Session) (game : Game) : Session :=
  { s with
    game := some (game.refilled.dealt s.picks s.target)
    picks := game.refilled.picksLeft s.picks }

theorem dealFrom_eq {game : Game} (h : game.Reachable) (s : Session) :
    s.dealFrom game = (s.dealtText game, s.withDealt game) := by
  have hdeal := Game.deal_of_not_isSetEnd h.isSetEnd_refilled s.picks s.target
  rw [Game.refilled] at hdeal
  simp only [dealFrom, hdeal]
  rfl

/-- When a set is over, its totals come first. -/
theorem exists_dealtText_of_isSetEnd {game : Game} (h : game.isSetEnd = true)
    (s : Session) : ∃ rest, s.dealtText game = setEndText game ++ rest := by
  rw [dealtText, h, if_pos rfl, String.append_assoc]
  exact ⟨_, rfl⟩

theorem deal_eq {s : Session} {game : Game} (hgame : s.game = some game)
    (h : game.Reachable) : s.deal = (s.dealtText game, s.withDealt game) := by
  rw [deal, hgame]
  exact dealFrom_eq h s

theorem thenDeal_eq {s : Session} {game : Game} (hgame : s.game = some game)
    (h : game.Reachable) (reply : String) :
    s.thenDeal reply = (reply ++ ("\n\n" ++ s.dealtText game), s.withDealt game) := by
  rw [thenDeal, deal_eq hgame h, ← String.append_assoc]

/-- The reply that ends a hand comes first. -/
theorem exists_thenDeal (s : Session) (reply : String) :
    ∃ rest after, s.thenDeal reply = (reply ++ rest, after) := by
  refine ⟨"\n\n" ++ s.deal.1, s.deal.2, ?_⟩
  rw [← String.append_assoc]
  rfl

theorem currentHand_eq_some {s : Session} {hand : Hand} :
    s.currentHand = some hand ↔ ∃ game, s.game = some game ∧ game.current = some hand :=
  Option.bind_eq_some_iff

theorem isSome_game {s : Session} {hand : Hand} (hhand : s.currentHand = some hand) :
    s.game.isSome = true := by
  obtain ⟨game, hgame, -⟩ := currentHand_eq_some.1 hhand
  rw [hgame]
  rfl

/-! ## What a line can do -/

/-- What a line can do to a session: nothing, another target, a hint for numbers, a
new game, the next hand, the next hand after a solved one, a hint for the hand being
played, the next hand after one that has nothing to hint at, or the end of the
game. -/
inductive Move (s : Session) : Session → Prop where
  | stay : Move s s
  | target (value : Int) : Move s { s with target := value }
  | hint (values : List Nat) : Move s (s.hint values).2
  | start : s.game = none → Move s (s.dealFrom (.start s.playOptions)).2
  | next : Move s s.deal.2
  | solved {hand : Hand} : s.currentHand = some hand →
      Move s (s.updateHand Hand.markSolved).deal.2
  | hintHand {hand : Hand} : s.currentHand = some hand → hand.answers ≠ [] →
      Move s (s.updateHand fun hand => hand.hint.2)
  | hintNext {hand : Hand} : s.currentHand = some hand → hand.answers = [] →
      Move s (s.updateHand fun hand => hand.hint.2).deal.2
  | stop : Move s { s with game := none }

variable (s : Session)

theorem move_play : Move s s.play.2 := by
  unfold play
  split
  next hgame => exact .start hgame
  next game hgame =>
    split
    next =>
      have hdeal : s.dealFrom game = s.deal := by rw [deal, hgame]
      rw [hdeal]
      exact .next
    next => exact .stay

theorem move_noSolutions : Move s s.noSolutions.2 := by
  unfold noSolutions
  split
  next => exact .next
  next hand hhand =>
    split
    · exact .solved hhand
    · exact .stay

theorem move_hintHand : Move s s.hintHand.2 := by
  unfold hintHand
  split
  next => exact .next
  next hand hhand =>
    dsimp only
    split
    next hnone => exact .hintNext hhand (hand.hint_eq_none_iff.1 hnone)
    next e hsome =>
      refine .hintHand hhand fun hnil => ?_
      rw [hand.hint_eq_none_iff.2 hnil] at hsome
      simp at hsome

theorem move_reveal : Move s s.reveal.2 := by
  unfold reveal
  split <;> exact .next

theorem move_judge (e : Expr) : Move s (s.judge e).2 := by
  unfold judge
  split
  next => exact .next
  next hand hhand =>
    split
    · exact .stay
    · exact .solved hhand

theorem move_stop : Move s s.stop.2 := by
  unfold stop
  split
  · exact .stay
  · exact .stop

theorem move_perform (command : Command) : Move s (s.perform command).2 := by
  cases command with
  | solve values => exact .stay
  | hint values => exact .hint values
  | check values solution offset =>
    rw [perform]
    split <;> exact .stay
  | target value => exact .target value
  | play => exact s.move_play
  | next => exact .next
  | noSolutions => exact s.move_noSolutions
  | reveal => exact s.move_reveal
  | hintHand => exact s.move_hintHand
  | answer solution offset =>
    rw [perform]
    split
    · exact .stay
    next e _ => exact s.move_judge e
  | stop => exact s.move_stop
  | help => exact .stay
  | quit => exact .stay

/-- Whatever a line is, it makes one of the moves. -/
theorem move_execute (line : String) : Move s (s.execute line).2 := by
  rw [execute]
  split
  · exact .stay
  · exact .stay
  · exact s.move_perform _

/-! ## What a line leaves alone -/

/-- A game that was on is still on, and the hand that numbered hints are given for is
the same. -/
structure Continues (s after : Session) : Prop where
  hinted : after.hinted = s.hinted
  isSome_game : s.game.isSome = true → after.game.isSome = true

theorem Continues.refl : Continues s s :=
  ⟨rfl, id⟩

theorem Continues.trans {s middle after : Session} (h : Continues s middle)
    (hrest : Continues middle after) : Continues s after :=
  ⟨hrest.hinted.trans h.hinted, fun hgame => hrest.isSome_game (h.isSome_game hgame)⟩

theorem continues_updateHand (f : Hand → Hand) : Continues s (s.updateHand f) := by
  refine ⟨rfl, fun hgame => ?_⟩
  rw [updateHand, Option.isSome_map]
  exact hgame

theorem continues_dealFrom (game : Game) : Continues s (s.dealFrom game).2 := by
  simp only [dealFrom]
  split <;> exact ⟨rfl, fun _ => rfl⟩

theorem continues_deal : Continues s s.deal.2 := by
  rw [deal]
  split
  · exact .refl s
  · exact s.continues_dealFrom _

theorem continues_play : Continues s s.play.2 := by
  unfold play
  split
  · exact s.continues_dealFrom _
  · split
    · exact s.continues_dealFrom _
    · exact .refl s

theorem continues_noSolutions : Continues s s.noSolutions.2 := by
  unfold noSolutions
  split
  · exact s.continues_deal
  · split
    · exact (s.continues_updateHand _).trans (continues_deal _)
    · exact .refl s

theorem continues_hintHand : Continues s s.hintHand.2 := by
  unfold hintHand
  split
  · exact s.continues_deal
  · dsimp only
    split
    · exact (s.continues_updateHand _).trans (continues_deal _)
    · exact s.continues_updateHand _

theorem continues_reveal : Continues s s.reveal.2 := by
  unfold reveal
  split <;> exact s.continues_deal

theorem continues_judge (e : Expr) : Continues s (s.judge e).2 := by
  unfold judge
  split
  · exact s.continues_deal
  · split
    · exact .refl s
    · exact (s.continues_updateHand _).trans (continues_deal _)

/-- Only a numbered hint and the end of the game do not leave these alone. -/
theorem continues_perform {command : Command} (hhint : ∀ values, command ≠ .hint values)
    (hstop : command ≠ .stop) : Continues s (s.perform command).2 := by
  cases command with
  | hint values => exact absurd rfl (hhint values)
  | stop => exact absurd rfl hstop
  | solve values | help | quit => exact .refl s
  | check values solution offset =>
    rw [perform]
    split <;> exact .refl s
  | target value => exact ⟨rfl, id⟩
  | play => exact s.continues_play
  | next => exact s.continues_deal
  | noSolutions => exact s.continues_noSolutions
  | reveal => exact s.continues_reveal
  | hintHand => exact s.continues_hintHand
  | answer solution offset =>
    rw [perform]
    split
    · exact .refl s
    next e _ => exact s.continues_judge e

/-- A hint for numbers changes what is stored of them, and nothing else. -/
theorem exists_hint_eq (numbers : List Nat) :
    ∃ hinted, (s.hint numbers).2 = { s with hinted := hinted } := by
  simp only [Session.hint]
  split <;> exact ⟨_, rfl⟩

/-! ## Reachable sessions -/

/-- The sessions that can come up.  The cards to come may be drawn anew before a
line. -/
inductive Reachable : Session → Prop where
  | start (glyphs : Glyphs) (playOptions : PlayOptions) (target : Int) (picks : Picks) :
      Reachable (start glyphs playOptions target picks)
  | draw {s : Session} (picks : Picks) : Reachable s → Reachable { s with picks := picks }
  | execute {s : Session} (line : String) : Reachable s → Reachable (s.execute line).2

/-- If a game is on, it can come up. -/
def Sound (s : Session) : Prop :=
  ∀ game, s.game = some game → game.Reachable

/-- If a game is on, it can come up and has a current hand, for which no hint was
asked if there is nothing to hint at. -/
structure Playable (s : Session) : Prop where
  sound : s.Sound
  exists_current : ∀ game, s.game = some game →
    ∃ hand, game.current = some hand ∧ (hand.answers = [] → hand.hinted = false)

section Step

variable {s : Session}

/-- What is changed beside the game does not matter. -/
theorem Playable.of_game_eq {after : Session} (h : s.Playable)
    (hgame : after.game = s.game) : after.Playable :=
  ⟨fun game hafter => h.sound game (hgame ▸ hafter),
    fun game hafter => h.exists_current game (hgame ▸ hafter)⟩

theorem playable_of_none (h : s.game = none) : s.Playable := by
  constructor
  · intro game hgame
    rw [h] at hgame
    simp at hgame
  · intro game hgame
    rw [h] at hgame
    simp at hgame

theorem playable_dealFrom {game : Game} (h : game.Reachable) (s : Session) :
    (s.dealFrom game).2.Playable := by
  rw [dealFrom_eq h]
  constructor
  · intro next hnext
    rw [← Option.some.inj hnext]
    exact h.refilled.dealt h.isSetEnd_refilled s.picks s.target
  · intro next hnext
    rw [← Option.some.inj hnext]
    exact ⟨_, rfl, fun _ => rfl⟩

theorem Sound.deal (h : s.Sound) : s.deal.2.Playable := by
  rw [Session.deal]
  split
  next hgame => exact playable_of_none hgame
  next game hgame => exact playable_dealFrom (h game hgame) s

theorem Sound.updateHand {f : Hand → Hand} (h : s.Sound)
    (hf : ∀ {game : Game}, game.Reachable → (game.updateCurrent f).Reachable) :
    (s.updateHand f).Sound := by
  intro next hnext
  obtain ⟨game, hgame, rfl⟩ := Option.map_eq_some_iff.1 hnext
  exact hf (h game hgame)

/-- A hint for a hand that has answers leaves the hand as it has to be. -/
theorem Playable.hintHand {hand : Hand} (h : s.Playable)
    (hhand : s.currentHand = some hand) (hne : hand.answers ≠ []) :
    (s.updateHand fun hand => hand.hint.2).Playable := by
  refine ⟨h.sound.updateHand .hint, fun next hnext => ?_⟩
  obtain ⟨game, hgame, hcurrent⟩ := currentHand_eq_some.1 hhand
  obtain ⟨game', hgame', rfl⟩ := Option.map_eq_some_iff.1 hnext
  obtain rfl : game = game' := Option.some.inj (hgame.symm.trans hgame')
  refine ⟨hand.hint.2, ?_, fun hnil => absurd hnil ?_⟩
  · rw [Game.updateCurrent, hcurrent, Option.map_some]
  · rw [Hand.answers_hint]
    exact hne

theorem game_hint (s : Session) (values : List Nat) :
    (s.hint values).2.game = s.game := by
  simp only [Session.hint]
  split <;> rfl

/-- What one line preserves. -/
theorem Playable.move {after : Session} (h : s.Playable) (hmove : s.Move after) :
    after.Playable := by
  cases hmove with
  | stay => exact h
  | target value => exact h.of_game_eq rfl
  | hint values => exact h.of_game_eq (game_hint s values)
  | start _ => exact playable_dealFrom (.start s.playOptions) s
  | next => exact h.sound.deal
  | solved _ => exact (h.sound.updateHand .solved).deal
  | hintHand hhand hne => exact h.hintHand hhand hne
  | hintNext _ _ =>
    -- The hand that was asked about is over, so nothing is left to say of it.
    exact (h.sound.updateHand .hint).deal
  | stop => exact playable_of_none rfl

end Step

namespace Reachable

variable {s : Session}

/-- What a whole session preserves. -/
theorem playable (h : s.Reachable) : s.Playable := by
  induction h with
  | start glyphs playOptions target picks => exact playable_of_none rfl
  | draw picks _ ih => exact ih.of_game_eq rfl
  | @execute s line _ ih => exact ih.move (s.move_execute line)

/-- During a game there is always a hand to play. -/
theorem exists_currentHand (h : s.Reachable) (hgame : s.game.isSome = true) :
    ∃ hand, s.currentHand = some hand := by
  obtain ⟨game, hgame⟩ := Option.isSome_iff_exists.1 hgame
  obtain ⟨hand, hhand, -⟩ := h.playable.exists_current game hgame
  exact ⟨hand, currentHand_eq_some.2 ⟨game, hgame, hhand⟩⟩

/-- The hand being played has the answers of its own numbers and its own target. -/
theorem answered_currentHand (h : s.Reachable) {hand : Hand}
    (hhand : s.currentHand = some hand) : hand.Answered := by
  obtain ⟨game, hgame, hcurrent⟩ := currentHand_eq_some.1 hhand
  refine (h.playable.sound game hgame).answered hand (List.mem_append_right _ ?_)
  exact Option.mem_toList.2 hcurrent

theorem hinted_currentHand (h : s.Reachable) {hand : Hand}
    (hhand : s.currentHand = some hand) (hnil : hand.answers = []) :
    hand.hinted = false := by
  obtain ⟨game, hgame, hcurrent⟩ := currentHand_eq_some.1 hhand
  obtain ⟨hand', hcurrent', hhinted⟩ := h.playable.exists_current game hgame
  obtain rfl : hand = hand' := Option.some.inj (hcurrent.symm.trans hcurrent')
  exact hhinted hnil

end Reachable

end Session

end TwentyFour
