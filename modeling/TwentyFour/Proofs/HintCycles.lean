import TwentyFour.Proofs.PlainSearch
import TwentyFour.Proofs.Scores

/-!
# Hints go round

A hint is taken from the solutions one after the other and then from the start again.  A session
stores where it is; the history of its lines says the same without anything stored.

* `Hints.next_of_ne_nil` is the next solution of a row.
* `Session.Asked` are the sessions that can come up, with the hands that hints for numbers
  were asked for.  `streak` counts how often in a row it was the same hand.
* `Session.Remembers` is the invariant: what is stored is the last hand and its streak.
  `Remembers.execute` is its step and `Asked.remembers` its run.  `Remembers.hintsFor`
  reads the next hint off the history.
* `Session.Counts` is the invariant of the hand being played: as many hints were given as its
  lines have asked for.  `Counts.execute` is its step and `History.counts` its run.
* `Session.hints_cycle` is the result about both kinds of hints.
-/

namespace TwentyFour

/-- The next hint of a row that is not empty. -/
theorem Hints.next_of_ne_nil {hints : Hints} (h : hints.answers ≠ []) :
    ∃ e, hints.answers[hints.given % hints.answers.length]? = some e ∧
      hints.next = some (e, { hints with given := hints.given + 1 }) := by
  have hlt := Nat.mod_lt hints.given (List.length_pos_iff.2 h)
  have hget := List.getElem?_eq_getElem hlt
  refine ⟨_, hget, ?_⟩
  rw [next, hget, Option.map_some]

theorem Hints.given_of_next {hints later : Hints} {e : Expr}
    (h : hints.next = some (e, later)) : later.given = hints.given + 1 := by
  obtain ⟨e', -, heq⟩ := Option.map_eq_some_iff.1 h
  rw [← (Prod.mk.inj heq).2]

namespace Session

/-! ## The hands that were asked for -/

/-- The numbers, in order, that a line asks a hint for, and the target in force. -/
def asks? (s : Session) (line : String) : Option (List Nat × Int) :=
  match Command.parse line s.game.isSome with
  | .ok (some (.hint numbers)) => some (sortBy compare numbers, s.target)
  | _ => none

/-- The sessions that can come up, with the hands that hints for numbers were asked for, the
last one first. -/
inductive Asked : Session → List (List Nat × Int) → Prop where
  | start (glyphs : Glyphs) (playOptions : PlayOptions) (target : Int) (picks : Picks) :
      Asked (start glyphs playOptions target picks) []
  | draw {s : Session} {asked : List (List Nat × Int)} (picks : Picks) :
      Asked s asked → Asked { s with picks := picks } asked
  | execute {s : Session} {asked : List (List Nat × Int)} (line : String) :
      Asked s asked → Asked (s.execute line).2 ((s.asks? line).toList ++ asked)

/-- How often in a row it was this hand, counted back from the last one. -/
def streak (asked : List (List Nat × Int)) (hand : List Nat × Int) : Nat :=
  (asked.takeWhile (· = hand)).length

theorem streak_cons_self (asked : List (List Nat × Int)) (hand : List Nat × Int) :
    streak (hand :: asked) hand = streak asked hand + 1 := by
  simp [streak]

theorem streak_cons_of_ne {last hand : List Nat × Int} (h : last ≠ hand)
    (asked : List (List Nat × Int)) : streak (last :: asked) hand = 0 := by
  simp [streak, h]

theorem solve_sortBy (numbers : List Nat) (target : Int) :
    solve (sortBy compare numbers) target = solve numbers target :=
  solve_eq_of_perm (sortBy_perm compare numbers) target

/-! ## What is stored -/

/-- The hints are those for this hand, and as many of them were given as it was asked for in
a row.  Without solutions no hint is given at all. -/
structure Follows (hints : Hints) (asked : List (List Nat × Int)) (hand : List Nat × Int) :
    Prop where
  answers : hints.answers = solve hand.1 hand.2
  given : hints.answers ≠ [] → hints.given = streak asked hand

/-- The last hand that was asked for is stored, with its hints. -/
def Remembers (s : Session) : List (List Nat × Int) → Prop
  | [] => s.hinted = none
  | last :: earlier => ∃ hints, s.hinted = some ⟨last.1, last.2, hints⟩ ∧
      Follows hints (last :: earlier) last

section Numbers

variable {s : Session} {asked : List (List Nat × Int)}

/-- The hints to go on with are those that the history tells. -/
theorem Remembers.hintsFor (h : s.Remembers asked) (values : List Nat) :
    Follows (s.hintsFor values) asked (values, s.target) := by
  have hfresh : streak asked (values, s.target) = 0 →
      Follows (.ofHand values s.target) asked (values, s.target) := fun hzero =>
    ⟨rfl, fun _ => hzero.symm⟩
  cases asked with
  | nil =>
    rw [Session.hintsFor, show s.hinted = none from h]
    exact hfresh rfl
  | cons last earlier =>
    obtain ⟨hints, hhinted, hfollows⟩ := h
    rw [Session.hintsFor, hhinted]
    by_cases hsame : last = (values, s.target)
    · subst hsame
      simpa using hfollows
    · have hother : ¬ (last.1 = values ∧ last.2 = s.target) := fun heq =>
        hsame (Prod.ext heq.1 heq.2)
      simp only [Bool.and_eq_true, decide_eq_true_eq, hother, if_false]
      exact hfresh (streak_cons_of_ne hsame earlier)

/-- The reply to a hint for numbers, and what is stored then. -/
theorem Remembers.hint (h : s.Remembers asked) (numbers : List Nat) :
    (s.hint numbers).2.Remembers ((sortBy compare numbers, s.target) :: asked) ∧
    (solve numbers s.target = [] → (s.hint numbers).1 = Reply.noSolutions) ∧
    (solve numbers s.target ≠ [] → ∃ e,
      (solve numbers s.target)[streak asked (sortBy compare numbers, s.target) %
        (solve numbers s.target).length]? = some e ∧
      (s.hint numbers).1 = s.hintText e) := by
  obtain ⟨hanswers, hgiven⟩ := h.hintsFor (sortBy compare numbers)
  have hsolve := hanswers.trans (solve_sortBy numbers s.target)
  generalize hhints : s.hintsFor (sortBy compare numbers) = hints at *
  rw [← hsolve]
  by_cases hnil : hints.answers = []
  · have hreply : s.hint numbers = (Reply.noSolutions,
        { s with hinted := some ⟨sortBy compare numbers, s.target, hints⟩ }) := by
      simp only [Session.hint, hhints, hints.next_eq_none_iff.2 hnil]
    rw [hreply]
    exact ⟨⟨hints, rfl, hanswers, fun hne => absurd hnil hne⟩, fun _ => rfl,
      fun hne => absurd hnil hne⟩
  · obtain ⟨e, hget, hnext⟩ := Hints.next_of_ne_nil hnil
    have hreply : s.hint numbers = (s.hintText e,
        { s with hinted := some ⟨sortBy compare numbers, s.target,
          { hints with given := hints.given + 1 }⟩ }) := by
      simp only [Session.hint, hhints, hnext]
    rw [hreply]
    refine ⟨⟨_, rfl, hanswers, fun _ => ?_⟩, fun h => absurd h hnil, fun _ => ⟨e, ?_, rfl⟩⟩
    · rw [streak_cons_self, ← hgiven hnil]
    · rw [← hgiven hnil]
      exact hget

/-- Other lines leave the stored hand alone. -/
theorem hinted_execute {line : String} (h : s.asks? line = none) :
    (s.execute line).2.hinted = s.hinted := by
  rw [asks?] at h
  rw [Session.execute]
  split
  next => rfl
  next => rfl
  next command hparse =>
    by_cases hstop : command = .stop
    · rw [hstop, perform, replyText, stop]
      split <;> rfl
    · refine (s.continues_perform (fun values heq => ?_) hstop).hinted
      simp [hparse, heq] at h

theorem Remembers.of_hinted_eq {after : Session} (h : s.Remembers asked)
    (hhinted : after.hinted = s.hinted) : after.Remembers asked := by
  cases asked with
  | nil => exact hhinted.trans h
  | cons last earlier =>
    obtain ⟨hints, hlast, hfollows⟩ := h
    exact ⟨hints, hhinted.trans hlast, hfollows⟩

/-- What one line preserves. -/
theorem Remembers.execute (h : s.Remembers asked) (line : String) :
    (s.execute line).2.Remembers ((s.asks? line).toList ++ asked) := by
  cases hasks : s.asks? line with
  | none => exact h.of_hinted_eq (hinted_execute hasks)
  | some hand =>
    rw [asks?] at hasks
    split at hasks
    next numbers hparse =>
      obtain rfl := Option.some.inj hasks
      rw [Session.execute, hparse]
      exact (h.hint numbers).1
    next => simp at hasks

/-- What a whole session preserves. -/
theorem Asked.remembers (h : s.Asked asked) : s.Remembers asked := by
  induction h with
  | start glyphs playOptions target picks => rfl
  | draw picks _ ih => exact ih.of_hinted_eq rfl
  | execute line _ ih => exact ih.execute line

/-- The numbers count, and not their order. -/
theorem hint_eq_of_perm {numbers numbers' : List Nat} (h : numbers'.Perm numbers) :
    s.hint numbers' = s.hint numbers := by
  simp only [Session.hint, sortBy_eq_of_perm h]

end Numbers

/-! ## The hand being played -/

/-- As many hints were given for the hand being played as its lines have asked for. -/
def Counts (s : Session) : Option Chronicle → Prop
  | none => True
  | some chronicle => ∀ hand, s.currentHand = some hand →
      hand.hints.given = chronicle.now.lines.countP asksHint

section Playing

variable {s : Session} {game next : Game} {hand : Hand} {chronicle : Chronicle}
  {line : String}

theorem given_hint (h : hand.answers ≠ []) :
    hand.hint.2.hints.given = hand.hints.given + 1 := by
  obtain ⟨e, -, hnext⟩ := Hints.next_of_ne_nil h
  rw [Hand.hint, hnext]

/-- A line that deals a hand starts an empty turn. -/
theorem lines_after_withDealt (hgame : s.game = some game) (f : Hand → Hand)
    (line : String) :
    ∃ known, Chronicle.after (some chronicle) s line
        (some ((game.updateCurrent f).refilled.dealt s.picks s.target)) = some known ∧
      known.now.lines = [] := by
  rcases (game.updateCurrent f).newSet_or_newHand s.picks s.target with
    ⟨hset, -⟩ | ⟨hset, hlength⟩
  · exact ⟨_, after_of_newSet hgame (by rw [hset]; exact Nat.succ_ne_self game.set), rfl⟩
  · rw [length_hands_updateCurrent] at hlength
    exact ⟨_, after_of_newHand hgame hset (by omega), rfl⟩

/-- What one line preserves. -/
theorem Counts.execute {known : Option Chronicle} (h : s.Counts known)
    (hreachable : s.Reachable) (hagrees : s.Agrees known) (line : String) :
    (s.execute line).2.Counts (Chronicle.after known s line (s.execute line).2.game) := by
  cases known with
  | none =>
    have hgame : s.game = none := hagrees
    rcases idle_execute hgame line with hnone | hstart
    · rw [hnone]
      trivial
    · rw [hstart, dealFrom_eq (.start s.playOptions), replyText, withDealt,
        after_of_idle hgame]
      rintro hand hhand
      obtain rfl := Option.some.inj hhand
      rfl
  | some chronicle =>
    obtain ⟨game, hgame, -⟩ := hagrees
    obtain ⟨hand, hhand, hcurrent, -, heffect⟩ := hreachable.exists_effect hgame line
    have hgiven := h hand hhand
    generalize s.execute line = outcome at heffect
    cases heffect with
    | keep _ hhint hafter =>
      rw [hafter, after_of_hands hgame rfl rfl]
      intro hand' hhand'
      rw [currentHand, hafter, Option.bind_some, hcurrent] at hhand'
      obtain rfl := Option.some.inj hhand'
      simp [Turn.add, hhint, hgiven]
    | hint hhint hne hafter =>
      have hset : (game.updateCurrent fun hand => hand.hint.2).set = game.set := rfl
      rw [hafter, after_of_hands hgame hset (length_hands_updateCurrent game _)]
      intro hand' hhand'
      rw [currentHand, hafter, Option.bind_some, Game.updateCurrent, hcurrent,
        Option.map_some] at hhand'
      obtain rfl := Option.some.inj hhand'
      simp [Turn.add, hhint, given_hint hne, hgiven]
    | @deal f reply hends =>
      rw [hreachable.dealFrom_of_ends hgame hends, withDealt]
      obtain ⟨known, hknown, hlines⟩ := lines_after_withDealt hgame f line
      rw [hknown]
      intro hand' hhand'
      obtain rfl := Option.some.inj hhand'
      rw [hlines]
      rfl
    | stop _ _ => trivial

/-- What a whole session preserves. -/
theorem History.counts {known : Option Chronicle} (h : s.History known) :
    s.Counts known := by
  induction h with
  | start glyphs playOptions target picks => trivial
  | @draw s known picks _ ih => cases known <;> exact ih
  | execute line hs ih => exact ih.execute hs.reachable hs.agrees line

/-- The reply to a bare hint for a hand with solutions. -/
theorem execute_hintHand (hhand : s.currentHand = some hand) (h : asksHint line = true)
    (hne : hand.answers ≠ []) :
    ∃ e, hand.answers[hand.hints.given % hand.answers.length]? = some e ∧
      (s.execute line).1 = .ok (.text (s.hintText e)) := by
  obtain ⟨e, hget, hnext⟩ := Hints.next_of_ne_nil hne
  have hhint : hand.hint.1 = some e := by rw [Hand.hint, hnext]
  refine ⟨e, hget, ?_⟩
  simp only [Session.execute, isSome_game hhand, asksHint_eq_true.1 h, perform, hintHand,
    hhand, hhint]
  rfl

/-- A hand without solutions ends when a hint is asked for. -/
theorem exists_execute_hintHand (hhand : s.currentHand = some hand)
    (h : asksHint line = true) (hnil : hand.answers = []) :
    ∃ rest, (s.execute line).1 = .ok (.text (Reply.noSolutions ++ rest)) := by
  obtain ⟨rest, after, hdeal⟩ :=
    (s.updateHand fun hand => hand.hint.2).exists_thenDeal Reply.noSolutions
  refine ⟨rest, ?_⟩
  simp only [Session.execute, isSome_game hhand, asksHint_eq_true.1 h, perform, hintHand,
    hhand, hand.hint_eq_none_iff.2 hnil, hdeal]
  rfl

end Playing

/-- Hints go round the solutions, whatever happens in between.  A hint for numbers is the one
that the history of the lines tells: the solutions of the numbers are gone through as often
as they were asked for in a row with the target in force, in whatever order they are typed.  A
bare hint goes through the solutions of the hand being played in the same way, and only bare
hints count for it. -/
theorem hints_cycle :
    (∀ s asked, Session.Asked s asked → ∀ line numbers,
      Command.parse line s.game.isSome = .ok (some (.hint numbers)) →
        (solve numbers s.target = [] →
          (s.execute line).1 = .ok (.text Reply.noSolutions)) ∧
        (solve numbers s.target ≠ [] → ∃ e,
          (solve numbers s.target)[streak asked (sortBy compare numbers, s.target) %
            (solve numbers s.target).length]? = some e ∧
          (s.execute line).1 = .ok (.text ("Hint: " ++ e.hint s.glyphs))) ∧
        ∀ line' numbers',
          Command.parse line' s.game.isSome = .ok (some (.hint numbers')) →
            numbers'.Perm numbers → s.execute line' = s.execute line) ∧
    ∀ s chronicle, Session.History s (some chronicle) →
      ∃ hand, s.currentHand = some hand ∧ ∀ line, asksHint line = true →
        (hand.answers = [] →
          ∃ rest, (s.execute line).1 = .ok (.text (Reply.noSolutions ++ rest))) ∧
        (hand.answers ≠ [] → ∃ e,
          hand.answers[chronicle.now.lines.countP asksHint % hand.answers.length]? = some e ∧
          (s.execute line).1 = .ok (.text ("Hint: " ++ e.hint s.glyphs))) := by
  constructor
  · intro s asked hasked line numbers hparse
    obtain ⟨-, hnone, hsome⟩ := hasked.remembers.hint numbers
    have hreply : s.execute line = replyText (s.hint numbers) := by
      simp only [Session.execute, hparse, perform]
    refine ⟨fun hnil => ?_, fun hne => ?_, fun line' numbers' hparse' hperm => ?_⟩
    · rw [hreply, replyText, hnone hnil]
    · obtain ⟨e, hget, htext⟩ := hsome hne
      refine ⟨e, hget, ?_⟩
      rw [hreply, replyText, htext]
      rfl
    · rw [hreply, ← hint_eq_of_perm hperm]
      simp only [Session.execute, hparse', perform]
  · intro s chronicle hhistory
    obtain ⟨hand, hhand⟩ :
        ∃ hand, s.currentHand = some hand := by
      obtain ⟨game, hgame, hscored⟩ := hhistory.agrees
      obtain ⟨hand, hcurrent, -⟩ := hscored.current
      exact ⟨hand, currentHand_eq_some.2 ⟨game, hgame, hcurrent⟩⟩
    have hgiven := hhistory.counts hand hhand
    refine ⟨hand, hhand, fun line hasks => ⟨exists_execute_hintHand hhand hasks, ?_⟩⟩
    rw [← hgiven]
    exact execute_hintHand hhand hasks

/-- A game with hands of three cards and the target 4, of which the first is 2, 2, 4. -/
def twosAndFour : Session :=
  ((start .unicode ⟨3, false, false⟩ 4 ⟨[4, 5, 12]⟩).execute "play").2

/-- The second hint for the numbers 2, 2, 4 is for the second solution, in whatever order they
are typed, and the first bare hint for the same hand is for the first one. -/
theorem hints_cycle_two_two_four :
    ∃ s, s = (twosAndFour.execute "hint 2 4 2").2 ∧
      Session.Asked s [([2, 2, 4], 4)] ∧
      Session.History s (some ⟨[], ⟨[2, 2, 4], 4, ["hint 2 4 2"]⟩⟩) ∧
      (s.execute "hint 4 2 2").1 = .ok (.text "Hint: 2 × 4") ∧
      (s.execute "hint").1 = .ok (.text "Hint: 2 + 4") := by
  obtain ⟨s, hs⟩ : ∃ s, s = (twosAndFour.execute "hint 2 4 2").2 := ⟨_, rfl⟩
  obtain ⟨hinted, hframe⟩ : ∃ hinted, s = { twosAndFour with hinted := hinted } := by
    rw [hs]
    exact exists_hint_eq twosAndFour [2, 4, 2]
  have hasked : Session.Asked s [([2, 2, 4], 4)] := by
    rw [hs]
    exact .execute "hint 2 4 2" (.execute "play" (.start .unicode ⟨3, false, false⟩ 4 _))
  have hhistory : Session.History s (some ⟨[], ⟨[2, 2, 4], 4, ["hint 2 4 2"]⟩⟩) := by
    have hplayed : Session.History twosAndFour (some ⟨[], ⟨[2, 2, 4], 4, []⟩⟩) :=
      .execute "play" (.start .unicode ⟨3, false, false⟩ 4 _)
    have hknown : Chronicle.after (some ⟨[], ⟨[2, 2, 4], 4, []⟩⟩) twosAndFour "hint 2 4 2"
        s.game = some ⟨[], ⟨[2, 2, 4], 4, ["hint 2 4 2"]⟩⟩ := by
      rw [hframe]
      rfl
    rw [← hknown, hs]
    exact .execute "hint 2 4 2" hplayed
  have hsolve : ∀ values, values.Perm [2, 2, 4] → solve values 4 =
      [.compound .additive [⟨false, .number 2⟩, ⟨false, .number 4⟩, ⟨true, .number 2⟩],
        .compound .multiplicative
          [⟨false, .number 2⟩, ⟨false, .number 4⟩, ⟨true, .number 2⟩]] := by
    intro values hperm
    rw [solve_eq_of_perm hperm, solve_eq_plainSolve_self (by decide)]
    decide +kernel
  have htarget : s.target = 4 := by rw [hframe]; rfl
  have hglyphs : s.glyphs = .unicode := by rw [hframe]; rfl
  obtain ⟨hnumbers, hbare⟩ := hints_cycle
  refine ⟨s, hs, hasked, hhistory, ?_, ?_⟩
  · obtain ⟨-, hsome, -⟩ := hnumbers s _ hasked "hint 4 2 2" [4, 2, 2] (by rw [hframe]; rfl)
    rw [htarget, hsolve [4, 2, 2] (by decide), hglyphs] at hsome
    obtain ⟨e, hget, hreply⟩ := hsome (List.cons_ne_nil _ _)
    obtain rfl := Option.some.inj hget
    rw [hreply]
    decide +kernel
  · obtain ⟨hand, hhand, hlines⟩ := hbare s _ hhistory
    obtain ⟨-, hsome⟩ := hlines "hint" rfl
    have hanswers : hand.answers = solve [2, 2, 4] 4 := by
      rw [hframe] at hhand
      obtain rfl := Option.some.inj hhand
      rfl
    rw [hanswers, hsolve [2, 2, 4] (.refl _), hglyphs] at hsome
    obtain ⟨e, hget, hreply⟩ := hsome (List.cons_ne_nil _ _)
    obtain rfl := Option.some.inj hget
    rw [hreply]
    decide +kernel

end Session

end TwentyFour
