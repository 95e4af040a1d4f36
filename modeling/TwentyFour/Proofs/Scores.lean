import TwentyFour.Proofs.Lines
import TwentyFour.Proofs.NoneOrAnswer

/-!
# The score is the history

Beside a session, the lines of the set being played are written down, hand by hand.  The
results that the session records are those that the lines deserve.

* `Turn` is a hand as the player went through it, and `Turn.result` what it deserves.
* `Chronicle.after` writes down a line.  It tells from the outside whether a hand was
  dealt, by the number of the set and the number of its hands.
* `Session.History` are the sessions that can come up, with their chronicles.
* `Session.Scored` is the invariant: the hands of the game are the turns of the chronicle.
  `Scored.keep`, `Scored.hint` and `Scored.deal` go through the effects of a line,
  `Agrees.execute` is the step and `History.agrees` the run.
* `Scored.shows` is about the totals that a line prints, and `History.score_eq` puts all
  of this together.
-/

namespace TwentyFour

/-! ## Turns -/

/-- A hand as the player went through it. -/
structure Turn where
  numbers : List Nat
  /-- The target that was in force when the hand was dealt. -/
  target : Int
  /-- The lines while the hand was the current one, with the one that ended it. -/
  lines : List String
deriving DecidableEq, Repr

namespace Turn

/-- The turn with one more line. -/
def add (turn : Turn) (line : String) : Turn :=
  { turn with lines := turn.lines ++ [line] }

/-- The last line solved the hand. -/
def solved (turn : Turn) : Bool :=
  turn.lines.getLast?.any (solves turn.numbers turn.target)

/-- Some line asked for a hint. -/
def hinted (turn : Turn) : Bool :=
  turn.lines.any asksHint

/-- The result that the hand deserves. -/
def result (turn : Turn) : HandResult :=
  if turn.solved then (if turn.hinted then .hinted else .solved) else .failed

/-- The hand is not over: none of the lines ends it. -/
def Open (turn : Turn) : Prop :=
  ∀ line ∈ turn.lines, ends turn.numbers turn.target line = false

/-- The hand is over: the last line ends it, and no line before. -/
def Closed (turn : Turn) : Prop :=
  ∃ body last, turn.lines = body ++ [last] ∧
    (∀ line ∈ body, ends turn.numbers turn.target line = false) ∧
    ends turn.numbers turn.target last = true

theorem solved_add (turn : Turn) (line : String) :
    (turn.add line).solved = solves turn.numbers turn.target line := by
  simp [solved, add]

theorem hinted_add (turn : Turn) (line : String) :
    (turn.add line).hinted = (turn.hinted || asksHint line) := by
  simp [hinted, add]

theorem Open.add {turn : Turn} {line : String} (h : turn.Open)
    (hline : ends turn.numbers turn.target line = false) : (turn.add line).Open := by
  intro line' hmem
  rcases List.mem_append.1 hmem with hold | hnew
  · exact h line' hold
  · rw [List.mem_singleton.1 hnew]
    exact hline

theorem Open.close {turn : Turn} {line : String} (h : turn.Open)
    (hline : ends turn.numbers turn.target line = true) : (turn.add line).Closed :=
  ⟨turn.lines, line, rfl, h, hline⟩

end Turn

/-- The results of turns, counted. -/
def Summary.ofTurns (turns : List Turn) : Summary :=
  ⟨turns.countP (·.result = .solved), turns.countP (·.result = .hinted),
    turns.countP (·.result = .failed)⟩

/-- Only the results count. -/
theorem Summary.ofHands_eq_ofTurns {hands : List Hand} {turns : List Turn}
    (h : hands.map (·.result) = turns.map Turn.result) : ofHands hands = ofTurns turns := by
  have hcount : ∀ result : HandResult,
      hands.countP (·.result = result) = turns.countP (·.result = result) := by
    intro result
    have hmap := congrArg (List.countP fun r => decide (r = result)) h
    rw [List.countP_map, List.countP_map] at hmap
    exact hmap
  rw [ofHands, ofTurns, hcount, hcount, hcount]

/-! ## Chronicles -/

/-- The turns of the set being played. -/
structure Chronicle where
  past : List Turn
  now : Turn
deriving DecidableEq, Repr

namespace Chronicle

/-- The turns of the set, with one more line. -/
def add (chronicle : Chronicle) (line : String) : List Turn :=
  chronicle.past ++ [chronicle.now.add line]

/-- The turn of a hand that has just been dealt. -/
def fresh (target : Int) (game : Game) : Turn :=
  ⟨(game.current.map (·.values)).getD [], target, []⟩

/-- What is written down after a line, from the games before and after it. -/
def after (chronicle : Option Chronicle) (s : Session) (line : String) (next : Option Game) :
    Option Chronicle :=
  match next, s.game, chronicle with
  | none, _, _ => none
  | some next, some game, some chronicle =>
    if next.set ≠ game.set then
      some ⟨[], fresh s.target next⟩
    else if next.hands.length ≠ game.hands.length then
      some ⟨chronicle.add line, fresh s.target next⟩
    else
      some ⟨chronicle.past, chronicle.now.add line⟩
  | some next, _, _ => some ⟨[], fresh s.target next⟩

end Chronicle

namespace Session

/-- The sessions that can come up, with the chronicle of the set being played. -/
inductive History : Session → Option Chronicle → Prop where
  | start (glyphs : Glyphs) (playOptions : PlayOptions) (target : Int) (picks : Picks) :
      History (start glyphs playOptions target picks) none
  | draw {s : Session} {chronicle : Option Chronicle} (picks : Picks) :
      History s chronicle → History { s with picks := picks } chronicle
  | execute {s : Session} {chronicle : Option Chronicle} (line : String) :
      History s chronicle →
        History (s.execute line).2
          (Chronicle.after chronicle s line (s.execute line).2.game)

theorem History.reachable {s : Session} {chronicle : Option Chronicle}
    (h : s.History chronicle) : s.Reachable := by
  induction h with
  | start glyphs playOptions target picks => exact .start glyphs playOptions target picks
  | draw picks _ ih => exact .draw picks ih
  | execute line _ ih => exact .execute line ih

/-- The hands of the game are the turns of the chronicle, with the results that they
deserve. -/
structure Scored (game : Game) (chronicle : Chronicle) : Prop where
  past : game.past.map (fun hand => (hand.values, hand.target, hand.result)) =
    chronicle.past.map fun turn => (turn.numbers, turn.target, turn.result)
  closed : ∀ turn ∈ chronicle.past, turn.Closed
  current : ∃ hand, game.current = some hand ∧ hand.values = chronicle.now.numbers ∧
    hand.target = chronicle.now.target ∧ hand.result = .failed ∧
    hand.hinted = chronicle.now.hinted
  now : chronicle.now.Open

/-- There is a chronicle exactly during a game, and it is right. -/
def Agrees (s : Session) : Option Chronicle → Prop
  | none => s.game = none
  | some chronicle => ∃ game, s.game = some game ∧ Scored game chronicle

/-! ## One line -/

section Step

variable {s : Session} {game next : Game} {chronicle : Chronicle} {line : String}

theorem after_of_hands (hgame : s.game = some game) (hset : next.set = game.set)
    (hhands : next.hands.length = game.hands.length) :
    Chronicle.after (some chronicle) s line (some next) =
      some ⟨chronicle.past, chronicle.now.add line⟩ := by
  simp only [Chronicle.after, hgame, hset, hhands, ne_eq, not_true_eq_false, if_false]

theorem after_of_newHand (hgame : s.game = some game) (hset : next.set = game.set)
    (hhands : next.hands.length ≠ game.hands.length) :
    Chronicle.after (some chronicle) s line (some next) =
      some ⟨chronicle.add line, Chronicle.fresh s.target next⟩ := by
  simp only [Chronicle.after, hgame, hset, ne_eq, not_true_eq_false, if_false, hhands,
    not_false_eq_true, if_true]

theorem after_of_newSet (hgame : s.game = some game) (hset : next.set ≠ game.set) :
    Chronicle.after (some chronicle) s line (some next) =
      some ⟨[], Chronicle.fresh s.target next⟩ := by
  simp only [Chronicle.after, hgame, ne_eq, hset, not_false_eq_true, if_true]

theorem after_of_idle {known : Option Chronicle} (hgame : s.game = none) :
    Chronicle.after known s line (some next) = some ⟨[], Chronicle.fresh s.target next⟩ := by
  simp only [Chronicle.after, hgame]

/-- A hand that ends has the result that its turn deserves. -/
theorem result_of_ends {hand : Hand} {turn : Turn} {f : Hand → Hand}
    (h : hand.Ends line f) (hvalues : hand.values = turn.numbers)
    (htarget : hand.target = turn.target) (hresult : hand.result = .failed)
    (hhinted : hand.hinted = turn.hinted) :
    ((f hand).values, (f hand).target, (f hand).result) =
      ((turn.add line).numbers, (turn.add line).target, (turn.add line).result) := by
  have hsolved := turn.solved_add line
  rw [← hvalues, ← htarget] at hsolved
  have hturn : (turn.add line).numbers = hand.values ∧ (turn.add line).target = hand.target :=
    ⟨hvalues.symm, htarget.symm⟩
  rw [hturn.1, hturn.2, Turn.result, hsolved, turn.hinted_add, ← hhinted]
  cases h with
  | solved hsolves =>
    have hhint : asksHint line = false := by
      by_contra hasks
      rw [Bool.not_eq_false] at hasks
      simp [solves_of_asksHint hasks] at hsolves
    simp [Hand.markSolved, hsolves, hhint]
  | passed hpasses => simp [solves_of_passes hpasses, hresult]
  | exhausted hasks _ =>
    have hsame : hand.hint.2.result = hand.result := by
      unfold Hand.hint
      split <;> rfl
    simp [solves_of_asksHint hasks, hsame, hresult]

theorem Scored.keep (h : Scored game chronicle)
    (hends : ends chronicle.now.numbers chronicle.now.target line = false)
    (hhint : asksHint line = false) :
    Scored game ⟨chronicle.past, chronicle.now.add line⟩ := by
  obtain ⟨hand, hcurrent, hvalues, htarget, hresult, hhinted⟩ := h.current
  refine ⟨h.past, h.closed, ⟨hand, hcurrent, hvalues, htarget, hresult, ?_⟩, h.now.add hends⟩
  rw [Turn.hinted_add, hhint, Bool.or_false, hhinted]

theorem Scored.hint (h : Scored game chronicle)
    (hends : ends chronicle.now.numbers chronicle.now.target line = false)
    (hhint : asksHint line = true) :
    Scored (game.updateCurrent fun hand => hand.hint.2)
      ⟨chronicle.past, chronicle.now.add line⟩ := by
  obtain ⟨hand, hcurrent, hvalues, htarget, hresult, -⟩ := h.current
  refine ⟨h.past, h.closed, ⟨hand.hint.2, ?_, ?_, ?_, ?_, ?_⟩, h.now.add hends⟩
  · rw [Game.updateCurrent, hcurrent, Option.map_some]
  · rw [Hand.values_hint, hvalues]
    rfl
  · rw [Hand.target_hint, htarget]
    rfl
  · unfold Hand.hint
    split <;> exact hresult
  · rw [Hand.hinted_hint, Turn.hinted_add, hhint, Bool.or_true]

/-- A new hand has no lines yet. -/
theorem scored_dealt (picks : Picks) (target : Int) {turns : List Turn}
    (hpast : game.hands.map (fun hand => (hand.values, hand.target, hand.result)) =
      turns.map fun turn => (turn.numbers, turn.target, turn.result))
    (hclosed : ∀ turn ∈ turns, turn.Closed) :
    Scored (game.dealt picks target)
      ⟨turns, Chronicle.fresh target (game.dealt picks target)⟩ :=
  ⟨hpast, hclosed, ⟨_, rfl, rfl, rfl, rfl, rfl⟩, by simp [Chronicle.fresh, Turn.Open]⟩

/-- The hands of a set, with the one that has just ended. -/
theorem Scored.hands {f : Hand → Hand} {hand : Hand} (h : Scored game chronicle)
    (hcurrent : game.current = some hand) (hends : hand.Ends line f) :
    (game.updateCurrent f).hands.map (fun hand => (hand.values, hand.target, hand.result)) =
      (chronicle.add line).map fun turn => (turn.numbers, turn.target, turn.result) := by
  obtain ⟨hand', hcurrent', hvalues, htarget, hresult, hhinted⟩ := h.current
  obtain rfl : hand = hand' := Option.some.inj (hcurrent.symm.trans hcurrent')
  have hlast := result_of_ends hends hvalues htarget hresult hhinted
  rw [Game.hands, Game.updateCurrent, hcurrent, Option.map_some, Option.toList_some,
    List.map_append, h.past, Chronicle.add, List.map_append, List.map_singleton, hlast]
  rfl

theorem Scored.closed_add (h : Scored game chronicle)
    (hends : ends chronicle.now.numbers chronicle.now.target line = true) :
    ∀ turn ∈ chronicle.add line, turn.Closed := by
  intro turn hmem
  rcases List.mem_append.1 hmem with hpast | hnow
  · exact h.closed turn hpast
  · rw [List.mem_singleton.1 hnow]
    exact h.now.close hends

theorem length_hands_updateCurrent (game : Game) (f : Hand → Hand) :
    (game.updateCurrent f).hands.length = game.hands.length := by
  rw [Game.hands, Game.hands, Game.updateCurrent]
  cases game.current <;> simp

/-- What dealing the next hand does to the chronicle. -/
theorem Scored.deal {f : Hand → Hand} {hand : Hand} (h : Scored game chronicle)
    (hgame : s.game = some game) (hcurrent : game.current = some hand)
    (hanswers : hand.Answered) (hends : hand.Ends line f) :
    ∃ known, Chronicle.after (some chronicle) s line
        (some ((game.updateCurrent f).refilled.dealt s.picks s.target)) = some known ∧
      Scored ((game.updateCurrent f).refilled.dealt s.picks s.target) known := by
  obtain ⟨hand', hcurrent', hvalues, htarget, -, -⟩ := h.current
  obtain rfl : hand = hand' := Option.some.inj (hcurrent.symm.trans hcurrent')
  have hended := hends.ends_eq_true hanswers
  rw [hvalues, htarget] at hended
  unfold Game.refilled
  split
  next hend =>
    refine ⟨_, after_of_newSet hgame (Nat.succ_ne_self game.set), ?_⟩
    exact scored_dealt s.picks s.target rfl (by simp)
  next hcards =>
    have hlength := length_hands_updateCurrent game f
    refine ⟨_, after_of_newHand hgame rfl ?_, ?_⟩
    · rw [Game.hands, List.length_append]
      exact (Nat.succ_ne_self _).trans_eq hlength
    · exact scored_dealt s.picks s.target (h.hands hcurrent hends) (h.closed_add hended)

/-- What one line preserves. -/
theorem Agrees.execute {known : Option Chronicle} (h : s.Agrees known)
    (hreachable : s.Reachable) (line : String) :
    (s.execute line).2.Agrees (Chronicle.after known s line (s.execute line).2.game) := by
  cases known with
  | none =>
    have hgame : s.game = none := h
    rcases idle_execute hgame line with hnone | hstart
    · rw [hnone]
      exact hnone
    · rw [hstart, dealFrom_eq (.start s.playOptions)]
      rw [replyText, withDealt, after_of_idle hgame]
      have hnone : (Game.start s.playOptions).refilled.hands = [] := by
        unfold Game.refilled
        split <;> rfl
      exact ⟨_, rfl, scored_dealt s.picks s.target (by rw [hnone]; rfl) (by simp)⟩
  | some chronicle =>
    obtain ⟨game, hgame, hscored⟩ := h
    obtain ⟨hand, hcurrent, hvalues, htarget, -, -⟩ := hscored.current
    have hhand : s.currentHand = some hand := currentHand_eq_some.2 ⟨game, hgame, hcurrent⟩
    have hanswers : hand.Answered := hreachable.answered_currentHand hhand
    have heffect := effect_execute hgame hcurrent hanswers line
    generalize s.execute line = outcome at heffect
    cases heffect with
    | keep hends hhint hafter =>
      rw [hvalues, htarget] at hends
      rw [hafter, after_of_hands hgame rfl rfl]
      exact ⟨game, hafter, hscored.keep hends hhint⟩
    | hint hhint hne hafter =>
      have hends := ends_of_asksHint hhint hanswers hne
      rw [hvalues, htarget] at hends
      have hset : (game.updateCurrent fun hand => hand.hint.2).set = game.set := rfl
      rw [hafter, after_of_hands hgame hset (length_hands_updateCurrent game _)]
      exact ⟨_, hafter, hscored.hint hends hhint⟩
    | @deal f reply hends =>
      rw [hreachable.dealFrom_of_ends hgame hends, withDealt]
      obtain ⟨known, hknown, hafter⟩ := hscored.deal hgame hcurrent hanswers hends
      rw [hknown]
      exact ⟨_, rfl, hafter⟩
    | stop hends hhint => rfl

/-- What a whole session preserves. -/
theorem History.agrees {known : Option Chronicle} (h : s.History known) :
    s.Agrees known := by
  induction h with
  | start glyphs playOptions target picks => rfl
  | @draw s known picks _ ih => cases known <;> exact ih
  | execute line hs ih => exact ih.execute hs.reachable line

/-! ## Totals -/

theorem Scored.summary {f : Hand → Hand} {hand : Hand} (h : Scored game chronicle)
    (hcurrent : game.current = some hand) (hends : hand.Ends line f) :
    (game.updateCurrent f).summary = .ofTurns (chronicle.add line) := by
  refine Summary.ofHands_eq_ofTurns ?_
  have hresults := congrArg (List.map fun row => row.2.2) (h.hands hcurrent hends)
  rw [List.map_map, List.map_map] at hresults
  exact hresults

theorem Scored.summary_stop (h : Scored game chronicle)
    (hends : ends chronicle.now.numbers chronicle.now.target line = false) :
    game.summary = .ofTurns (chronicle.add line) := by
  obtain ⟨hand, hcurrent, -, -, hresult, -⟩ := h.current
  have hlast : (chronicle.now.add line).result = hand.result := by
    rw [hresult, Turn.result, Turn.solved_add, solves_of_ends hends]
    rfl
  have hpast := congrArg (List.map fun row => row.2.2) h.past
  rw [List.map_map, List.map_map] at hpast
  refine Summary.ofHands_eq_ofTurns ?_
  rw [Game.hands, hcurrent, Chronicle.add, Option.toList_some, List.map_append,
    List.map_append, List.map_singleton, List.map_singleton, hlast]
  exact congrArg (· ++ [hand.result]) hpast

/-- What a line shows of the score: it leaves the hands that are over as they are, it
prints the totals of a set that it ends, and those of the game that it ends. -/
structure Shows (game : Game) (totals : Summary) (outcome : Except Error Reply × Session) :
    Prop where
  past : ∀ next, outcome.2.game = some next → next.set = game.set → game.past <+: next.past
  setEnd : ∀ next, outcome.2.game = some next → next.set ≠ game.set → ∃ reply rest,
    outcome.1 = .ok (.text
      (reply ++ ("Set end, your result\n" ++ totals.text ++ "\n\n") ++ rest))
  stop : outcome.2.game = none → outcome.1 = .ok (.text ("Your result\n" ++ totals.text))

/-- A line that goes on with the same set shows no totals. -/
theorem shows_of_game {totals : Summary} {outcome : Except Error Reply × Session}
    (hafter : outcome.2.game = some next) (hset : next.set = game.set)
    (hpast : game.past <+: next.past) : Shows game totals outcome := by
  refine ⟨fun next' hnext' _ => ?_, fun next' hnext' hne => ?_, fun hnone => ?_⟩
  · obtain rfl := Option.some.inj (hafter.symm.trans hnext')
    exact hpast
  · obtain rfl := Option.some.inj (hafter.symm.trans hnext')
    exact absurd hset hne
  · rw [hafter] at hnone
    simp at hnone

theorem Scored.shows_deal {f : Hand → Hand} {hand : Hand} (h : Scored game chronicle)
    (hcurrent : game.current = some hand) (hends : hand.Ends line f)
    (hreachable : game.Reachable) (reply : String) :
    Shows game (.ofTurns (chronicle.add line))
      (.ok (.text (reply ++ (s.dealFrom (game.updateCurrent f)).1)),
        (s.dealFrom (game.updateCurrent f)).2) := by
  have hsource := reachable_of_ends hreachable hends
  rw [dealFrom_eq hsource]
  cases hend : (game.updateCurrent f).isSetEnd with
  | false =>
    have hrefilled : (game.updateCurrent f).refilled = game.updateCurrent f := by
      rw [Game.refilled, hend, if_neg (by simp)]
    refine shows_of_game rfl ?_ ?_
    · rw [hrefilled]
      rfl
    · rw [hrefilled]
      exact List.prefix_append _ _
  | true =>
    have hrefilled : (game.updateCurrent f).refilled = (game.updateCurrent f).reset := by
      rw [Game.refilled, hend, if_pos rfl]
    refine ⟨fun next hnext hset => ?_, fun _ _ _ => ?_, fun hnone => ?_⟩
    · obtain rfl := Option.some.inj hnext
      rw [hrefilled] at hset
      exact absurd hset (Nat.succ_ne_self game.set)
    · obtain ⟨rest, hrest⟩ := exists_dealtText_of_isSetEnd hend s
      refine ⟨reply, rest, ?_⟩
      rw [hrest, ← h.summary hcurrent hends, String.append_assoc]
      rfl
    · simp [withDealt] at hnone

/-- Every line shows the score that its turns deserve. -/
theorem Scored.shows {hand : Hand} (h : Scored game chronicle)
    (hgame : s.game = some game) (hcurrent : game.current = some hand)
    (hreachable : s.Reachable) (line : String) :
    Shows game (.ofTurns (chronicle.add line)) (s.execute line) := by
  have hhand : s.currentHand = some hand := currentHand_eq_some.2 ⟨game, hgame, hcurrent⟩
  have hanswers : hand.Answered := hreachable.answered_currentHand hhand
  have heffect := effect_execute hgame hcurrent hanswers line
  generalize s.execute line = outcome at heffect
  cases heffect with
  | keep _ _ hafter => exact shows_of_game hafter rfl (List.prefix_refl _)
  | hint _ _ hafter => exact shows_of_game hafter rfl (List.prefix_refl _)
  | deal reply hends =>
    exact h.shows_deal hcurrent hends (hreachable.playable.sound game hgame) reply
  | stop hends _ =>
    obtain ⟨hand', hcurrent', hvalues, htarget, -, -⟩ := h.current
    obtain rfl : hand = hand' := Option.some.inj (hcurrent.symm.trans hcurrent')
    rw [hvalues, htarget] at hends
    rw [h.summary_stop hends]
    exact ⟨by simp, by simp, fun _ => rfl⟩

end Step

/-- During a game, the hands of the set have the results that their lines deserve, and the
current one counts as failed.  No line changes a hand that is over.  A line that begins a
new set prints the totals of the old one, and the line that ends the game those of the set
so far. -/
theorem History.score_eq {s : Session} {known : Option Chronicle} (h : s.History known) :
    (known = none → s.game = none) ∧
    ∀ chronicle, known = some chronicle →
      ∃ game hand, s.game = some game ∧ game.current = some hand ∧
        (hand.values, hand.target, hand.result) =
          (chronicle.now.numbers, chronicle.now.target, .failed) ∧
        chronicle.now.Open ∧
        game.past.map (fun hand => (hand.values, hand.target, hand.result)) =
          chronicle.past.map (fun turn => (turn.numbers, turn.target, turn.result)) ∧
        (∀ turn ∈ chronicle.past, turn.Closed) ∧
        ∀ line,
          (∀ next, (s.execute line).2.game = some next → next.set = game.set →
            game.past <+: next.past) ∧
          (∀ next, (s.execute line).2.game = some next → next.set ≠ game.set →
            ∃ reply rest, (s.execute line).1 = .ok (.text (reply ++
              ("Set end, your result\n" ++ (Summary.ofTurns (chronicle.add line)).text ++
                "\n\n") ++ rest))) ∧
          ((s.execute line).2.game = none → (s.execute line).1 = .ok (.text
            ("Your result\n" ++ (Summary.ofTurns (chronicle.add line)).text))) := by
  have hagrees := h.agrees
  constructor
  · rintro rfl
    exact hagrees
  · rintro chronicle rfl
    obtain ⟨game, hgame, hscored⟩ := hagrees
    obtain ⟨hand, hcurrent, hvalues, htarget, hresult, -⟩ := hscored.current
    refine ⟨game, hand, hgame, hcurrent, ?_, hscored.now, hscored.past, hscored.closed,
      fun line => ?_⟩
    · rw [hvalues, htarget, hresult]
    · have hshows := hscored.shows hgame hcurrent h.reachable line
      exact ⟨hshows.past, hshows.setEnd, hshows.stop⟩

/-- The answer `1 - 2` solves the hand 1, 2 for the target -1. -/
theorem History.score_eq_one_minus_two :
    ∃ chronicle game, ((oneAndTwo (-1)).execute "1 - 2").2.History (some chronicle) ∧
      chronicle.past = [⟨[1, 2], -1, ["1 - 2"]⟩] ∧
      ((oneAndTwo (-1)).execute "1 - 2").2.game = some game ∧
      game.past.map (fun hand => (hand.values, hand.target, hand.result)) =
        [([1, 2], -1, .solved)] := by
  have hplayed : (oneAndTwo (-1)).History (some ⟨[], ⟨[1, 2], -1, []⟩⟩) :=
    .execute "play" (.start .unicode ⟨2, false, false⟩ (-1) ⟨[0, 4]⟩)
  have hanswered : ((oneAndTwo (-1)).execute "1 - 2").2.History
      (some ⟨[⟨[1, 2], -1, ["1 - 2"]⟩], ⟨[13, 13], -1, []⟩⟩) := by
    have hknown : Chronicle.after (some ⟨[], ⟨[1, 2], -1, []⟩⟩) (oneAndTwo (-1)) "1 - 2"
        ((oneAndTwo (-1)).execute "1 - 2").2.game =
          some ⟨[⟨[1, 2], -1, ["1 - 2"]⟩], ⟨[13, 13], -1, []⟩⟩ := by
      decide +kernel
    rw [← hknown]
    exact .execute "1 - 2" hplayed
  have hresult : (Turn.mk [1, 2] (-1) ["1 - 2"]).result = .solved := by decide +kernel
  obtain ⟨-, hscore⟩ := History.score_eq hanswered
  obtain ⟨game, -, hgame, -, -, -, hpast, -⟩ := hscore _ rfl
  refine ⟨_, game, hanswered, rfl, hgame, ?_⟩
  rw [hpast, List.map_singleton, hresult]

end Session

end TwentyFour
