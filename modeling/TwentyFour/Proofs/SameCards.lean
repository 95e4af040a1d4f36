import TwentyFour.Proofs.Supply

/-!
# The cards do not depend on the play

* `Table` is what is on the table: the cards of the hands, those that are left, and the picks
  for those to come.  `Table.after` says what it is after any number of hands, without a word
  about how they were played.
* `Session.newHands` tells from the outside how many hands a line has dealt.
  `Session.Dealt` are the sessions that can come up without the end of a game, with the
  number of hands that were dealt.
* `Session.table_move` is the step: a line leaves the table as it is, or deals the next hand.
  `Dealt.table_eq` is the run.
* `Session.same_cards` compares two runs.
-/

namespace TwentyFour

/-! ## The table -/

/-- The cards on the table. -/
structure Table where
  /-- The number of the set. -/
  set : Nat
  /-- The cards that are left. -/
  deck : List Card
  /-- The cards of the hands of the set, with the numbers they stand for. -/
  hands : List (List Card × List Nat)
  picks : Picks
deriving DecidableEq, Repr

namespace Table

/-- The table before the first hand. -/
def opening (picks : Picks) : Table :=
  ⟨1, TwentyFour.deck, [], picks⟩

/-- The table with enough cards for the next hand. -/
def refilled (options : PlayOptions) (table : Table) : Table :=
  if table.deck.length < options.handSize then
    ⟨table.set + 1, TwentyFour.deck, [], table.picks⟩
  else
    table

/-- The table after a hand was dealt. -/
def dealt (options : PlayOptions) (table : Table) : Table :=
  let (cards, left, picks) := drawCards options.handSize table.deck table.picks
  let hand := (cards, cards.map fun card => card.value options.faceToTen)
  ⟨table.set, left, table.hands ++ [hand], picks⟩

/-- The table after the next hand. -/
def next (options : PlayOptions) (table : Table) : Table :=
  (table.refilled options).dealt options

/-- The table after a number of hands. -/
def after (options : PlayOptions) (picks : Picks) : Nat → Table
  | 0 => opening picks
  | n + 1 => (after options picks n).next options

theorem hands_after_ne_nil (options : PlayOptions) (picks : Picks) (n : Nat) :
    (after options picks (n + 1)).hands ≠ [] := by
  simp [after, next, dealt]

end Table

namespace Game

/-- The table of a game. -/
def table (game : Game) (picks : Picks) : Table :=
  ⟨game.set, game.deck, game.hands.map fun hand => (hand.cards, hand.values), picks⟩

variable {options : PlayOptions} {game : Game}

/-- What is recorded on a hand is not on the table. -/
theorem table_updateCurrent {f : Hand → Hand}
    (hf : ∀ hand, (f hand).cards = hand.cards ∧ (f hand).values = hand.values)
    (picks : Picks) : (game.updateCurrent f).table picks = game.table picks := by
  have hhands : (game.updateCurrent f).hands.map (fun hand => (hand.cards, hand.values)) =
      game.hands.map fun hand => (hand.cards, hand.values) := by
    rw [hands, hands, updateCurrent]
    cases game.current with
    | none => rfl
    | some hand => simp [hf hand]
  rw [table, table, hhands]
  rfl

/-- The target makes no difference to what is dealt. -/
theorem table_dealt (h : game.options = { options with count := options.handSize })
    (picks : Picks) (target : Int) :
    (game.refilled.dealt picks target).table (game.refilled.picksLeft picks) =
      (game.table picks).next options := by
  have hfull : game.isSetEnd = decide ((game.table picks).deck.length < options.handSize) := by
    rw [isSetEnd, h]
    rfl
  have hoptions : game.refilled.options = { options with count := options.handSize } := by
    unfold refilled
    split <;> exact h
  have htable : game.refilled.table picks = (game.table picks).refilled options := by
    rw [refilled, Table.refilled, hfull]
    simp only [decide_eq_true_eq]
    split <;> rfl
  have hhands : (game.refilled.dealt picks target).hands =
      game.refilled.hands ++ [game.refilled.newHand picks target] := rfl
  rw [Table.next, ← htable, table, hhands]
  simp only [dealt, newHand, picksLeft, hoptions, Hand.ofCards, List.map_append,
    List.map_cons, List.map_nil, Table.dealt, table]

end Game

namespace Session

/-- The game that the next hand comes from: the one that is on, or a new one. -/
def played (s : Session) : Game :=
  s.game.getD (.start s.playOptions)

/-- The table of a session. -/
def table (s : Session) : Table :=
  s.played.table s.picks

/-- How many hands a line has dealt, from the sessions before and after it.  In a new set all
hands are new. -/
def newHands (before after : Session) : Nat :=
  if after.played.set = before.played.set then
    after.played.hands.length - before.played.hands.length
  else
    after.played.hands.length

/-- The sessions that can come up with these options and picks while no game is ended, with
the number of hands that were dealt. -/
inductive Dealt (options : PlayOptions) (picks : Picks) : Nat → Session → Prop where
  | start (glyphs : Glyphs) (target : Int) :
      Dealt options picks 0 (start glyphs options target picks)
  | execute {n : Nat} {s : Session} (line : String) : Dealt options picks n s →
      Command.parse line s.game.isSome ≠ .ok (some .stop) →
        Dealt options picks (n + newHands s (s.execute line).2) (s.execute line).2

/-! ## One line -/

section Step

variable {s after : Session} {source : Game}

theorem played_of_game (h : s.game = some source) : s.played = source := by
  rw [played, h]
  rfl

theorem newHands_eq_zero (h : after.table = s.table) : newHands s after = 0 := by
  have hset : after.played.set = s.played.set := congrArg Table.set h
  have hhands := congrArg (fun table => table.hands.length) h
  simp only [table, Game.table, List.length_map] at hhands
  rw [newHands, if_pos hset, hhands, Nat.sub_self]

/-- A hand that is dealt from a game with the same table is the next one. -/
theorem table_dealFrom (hcourse : ∃ n, source.Course s.playOptions n)
    (htable : source.table s.picks = s.table) :
    (s.dealFrom source).2.table = s.table.next s.playOptions ∧
      newHands s (s.dealFrom source).2 = 1 := by
  obtain ⟨n, hcourse⟩ := hcourse
  have hset : source.set = s.played.set := congrArg Table.set htable
  have hhands := congrArg (fun table => table.hands.length) htable
  simp only [table, Game.table, List.length_map] at hhands
  have hplayed : (s.withDealt source).played = source.refilled.dealt s.picks s.target := rfl
  rw [dealFrom_eq hcourse.reachable]
  refine ⟨?_, ?_⟩
  · rw [← htable]
    exact Game.table_dealt hcourse.options_eq s.picks s.target
  · rw [newHands, hplayed]
    rcases source.newSet_or_newHand s.picks s.target with ⟨hnew, hone⟩ | ⟨hsame, hmore⟩
    · rw [if_neg (by omega), hone]
    · rw [if_pos (by omega), hmore]
      omega

theorem table_updateHand {f : Hand → Hand}
    (hf : ∀ hand, (f hand).cards = hand.cards ∧ (f hand).values = hand.values) :
    (s.updateHand f).table = s.table := by
  rw [table, table, played, played, updateHand]
  cases hgame : s.game with
  | none => rfl
  | some game => exact Game.table_updateCurrent hf s.picks

theorem cards_and_values_hint (hand : Hand) :
    hand.hint.2.cards = hand.cards ∧ hand.hint.2.values = hand.values :=
  ⟨hand.cards_hint, hand.values_hint⟩

/-- The hand being played ends, and the next one is dealt. -/
theorem table_deal_updateHand {f : Hand → Hand} {game : Game} (h : s.Stocked)
    (hgame : s.game = some game) (hsource : s.Source (game.updateCurrent f))
    (hf : ∀ hand, (f hand).cards = hand.cards ∧ (f hand).values = hand.values) :
    (s.updateHand f).deal.2.table = s.table.next s.playOptions ∧
      newHands s (s.updateHand f).deal.2 = 1 := by
  have hdeal : (s.updateHand f).deal = s.dealFrom (game.updateCurrent f) := by
    rw [Session.deal, updateHand, hgame, Option.map_some]
    exact s.dealFrom_updateHand f _
  rw [hdeal]
  refine table_dealFrom (h.course_of_source hsource) ?_
  rw [Game.table_updateCurrent hf, table, played_of_game hgame]

/-- A line leaves the table as it is, or it deals the next hand. -/
theorem table_move (h : s.Stocked) (hmove : s.Move after)
    (hon : s.game.isSome = true → after.game.isSome = true) :
    (after.table = s.table ∧ newHands s after = 0) ∨
      (after.table = s.table.next s.playOptions ∧ newHands s after = 1) := by
  cases hmove with
  | stay => exact .inl ⟨rfl, newHands_eq_zero rfl⟩
  | target value => exact .inl ⟨rfl, newHands_eq_zero rfl⟩
  | hint values =>
    obtain ⟨hinted, hafter⟩ := s.exists_hint_eq values
    rw [hafter]
    exact .inl ⟨rfl, newHands_eq_zero rfl⟩
  | start hgame =>
    refine .inr (table_dealFrom (h.course_of_source (.start hgame)) ?_)
    rw [table, played, hgame, Option.getD_none]
  | next =>
    cases hgame : s.game with
    | none =>
      have hstay : s.deal.2 = s := by rw [Session.deal, hgame]
      rw [hstay]
      exact .inl ⟨rfl, newHands_eq_zero rfl⟩
    | some game =>
      have hdeal : s.deal = s.dealFrom game := by rw [Session.deal, hgame]
      rw [hdeal]
      refine .inr (table_dealFrom (h.course_of_source (.next hgame)) ?_)
      rw [table, played_of_game hgame]
  | solved hhand =>
    obtain ⟨game, hgame, -⟩ := currentHand_eq_some.1 hhand
    exact .inr (table_deal_updateHand h hgame (.solved hgame) fun _ => ⟨rfl, rfl⟩)
  | hintHand _ _ =>
    have hsame : (s.updateHand fun hand => hand.hint.2).table = s.table :=
      table_updateHand cards_and_values_hint
    exact .inl ⟨hsame, newHands_eq_zero hsame⟩
  | hintNext hhand _ =>
    obtain ⟨game, hgame, -⟩ := currentHand_eq_some.1 hhand
    exact .inr (table_deal_updateHand h hgame (.hint hgame) cards_and_values_hint)
  | stop =>
    -- The end of a game is ruled out, and outside of one it changes nothing.
    cases hgame : s.game with
    | none =>
      have hsame : ({ s with game := none } : Session) = s := by rw [← hgame]
      rw [hsame]
      exact .inl ⟨rfl, newHands_eq_zero rfl⟩
    | some game =>
      rw [hgame] at hon
      simp at hon

/-- A game goes on with every line that does not end it. -/
theorem isSome_game_execute {line : String}
    (h : Command.parse line s.game.isSome ≠ .ok (some .stop))
    (hgame : s.game.isSome = true) : (s.execute line).2.game.isSome = true := by
  rw [Session.execute]
  split
  next => exact hgame
  next => exact hgame
  next command hparse =>
    by_cases hhint : ∃ values, command = .hint values
    · obtain ⟨values, rfl⟩ := hhint
      rw [perform, replyText, game_hint]
      exact hgame
    · refine (s.continues_perform (fun values heq => hhint ⟨values, heq⟩) ?_).isSome_game hgame
      rintro rfl
      exact h hparse

end Step

/-! ## Runs -/

namespace Dealt

variable {options : PlayOptions} {picks : Picks} {n : Nat} {s : Session}

theorem reachable (h : Dealt options picks n s) : s.Reachable := by
  induction h with
  | start glyphs target => exact .start glyphs options target picks
  | execute line _ _ ih => exact .execute line ih

theorem playOptions_eq (h : Dealt options picks n s) : s.playOptions = options := by
  induction h with
  | start glyphs target => rfl
  | @execute n s line _ _ ih => exact (s.move_execute line).playOptions_eq.trans ih

/-- The number of hands says what is on the table. -/
theorem table_eq (h : Dealt options picks n s) : s.table = .after options picks n := by
  induction h with
  | start glyphs target => rfl
  | @execute n s line hs hstop ih =>
    have hmove := table_move hs.reachable.stocked (s.move_execute line)
      (isSome_game_execute hstop)
    rw [hs.playOptions_eq, ih] at hmove
    rcases hmove with ⟨htable, hnone⟩ | ⟨htable, hone⟩
    · rw [htable, hnone, Nat.add_zero]
    · rw [htable, hone]
      rfl

/-- A game is on once a hand was dealt. -/
theorem exists_game (h : Dealt options picks n s) (hn : 0 < n) :
    ∃ game, s.game = some game ∧ game.table s.picks = .after options picks n := by
  have htable := h.table_eq
  rw [table, played] at htable
  cases hgame : s.game with
  | none =>
    obtain ⟨m, rfl⟩ := Nat.exists_eq_succ_of_ne_zero hn.ne'
    rw [hgame] at htable
    exact absurd (congrArg Table.hands htable).symm (Table.hands_after_ne_nil options picks m)
  | some game =>
    rw [hgame] at htable
    exact ⟨game, rfl, htable⟩

end Dealt

/-- The cards do not depend on how the player plays.  After the same number of hands two
games with the same options and picks are in the same set, with the same cards left, the same
hands and the same picks to come. -/
theorem same_cards {options : PlayOptions} {picks : Picks} {n : Nat} {s s' : Session}
    (h : Dealt options picks n s) (h' : Dealt options picks n s') (hn : 0 < n) :
    ∃ game game', s.game = some game ∧ s'.game = some game' ∧
      game.set = game'.set ∧ game.deck = game'.deck ∧
      game.hands.map (fun hand => (hand.cards, hand.values)) =
        game'.hands.map (fun hand => (hand.cards, hand.values)) ∧
      s.picks = s'.picks := by
  obtain ⟨game, hgame, htable⟩ := h.exists_game hn
  obtain ⟨game', hgame', htable'⟩ := h'.exists_game hn
  have hsame := htable.trans htable'.symm
  exact ⟨game, game', hgame, hgame', congrArg Table.set hsame, congrArg Table.deck hsame,
    congrArg Table.hands hsame, congrArg Table.picks hsame⟩

/-- One player has the target 24 and skips the hand 1, 2.  Another one has the target 3 and
solves it.  The next hand is the same for both. -/
theorem same_cards_one_two :
    Dealt ⟨2, false, false⟩ ⟨[0, 4]⟩ 2 ((oneAndTwo 24).execute "next").2 ∧
    Dealt ⟨2, false, false⟩ ⟨[0, 4]⟩ 2 ((oneAndTwo 3).execute "2 + 1").2 ∧
    ∃ game game', ((oneAndTwo 24).execute "next").2.game = some game ∧
      ((oneAndTwo 3).execute "2 + 1").2.game = some game' ∧
      game.summary = ⟨0, 0, 2⟩ ∧ game'.summary = ⟨1, 0, 1⟩ ∧
      game.hands.map (fun hand => (hand.cards, hand.values)) =
        game'.hands.map (fun hand => (hand.cards, hand.values)) := by
  have hskipped : Dealt ⟨2, false, false⟩ ⟨[0, 4]⟩ 2 ((oneAndTwo 24).execute "next").2 :=
    .execute "next" (.execute "play" (.start .unicode 24) (by decide)) (by decide)
  have hplayed : Dealt ⟨2, false, false⟩ ⟨[0, 4]⟩ 1 (oneAndTwo 3) :=
    .execute "play" (.start .unicode 3) (by decide)
  have hone : newHands (oneAndTwo 3) ((oneAndTwo 3).execute "2 + 1").2 = 1 := by
    decide +kernel
  have hsolved := hplayed.execute "2 + 1" (by decide)
  rw [hone] at hsolved
  obtain ⟨game, game', hgame, hgame', -, -, hhands, -⟩ :=
    same_cards hskipped hsolved (by decide)
  have hsummary : ((oneAndTwo 24).execute "next").2.played.summary = ⟨0, 0, 2⟩ := by
    decide +kernel
  have hsummary' : ((oneAndTwo 3).execute "2 + 1").2.played.summary = ⟨1, 0, 1⟩ := by
    decide +kernel
  rw [played_of_game hgame] at hsummary
  rw [played_of_game hgame'] at hsummary'
  exact ⟨hskipped, hsolved, game, game', hgame, hgame', hsummary, hsummary', hhands⟩

end Session

end TwentyFour
