import TwentyFour.Proofs.Answers
import TwentyFour.Proofs.Commands
import TwentyFour.Proofs.Sessions

/-!
# What a line does to the hand being played

* `solves`, `passes` and `asksHint` tell lines apart by what they say, and `ends` says
  which of them end a hand.  `ends_of_isAside` is about commands for other things.
* `Hand.Ends` lists the three ways to end a hand, with what is recorded on it.
* `Session.Effect` lists what a line does during a game: it leaves the hand alone, it
  takes a hint, it ends the hand and deals the next one, or it ends the game.
  `effect_execute` says that every line does one of these, and `Reachable.exists_effect`
  that there always is a hand.
* `idle_execute` is about lines outside of a game, which can only start one.
-/

namespace TwentyFour

/-! ## Lines -/

/-- The line solves a hand with these numbers and this target: it is an answer that
uses exactly the numbers and has the target as its value, or it is `none` and the hand
has no solutions. -/
def solves (numbers : List Nat) (target : Int) (line : String) : Bool :=
  match Command.parse line true with
  | .ok (some (.answer solution _)) =>
    match Expr.parse solution with
    | .ok e => e.usesExactly numbers && e.value = some (target : Rat)
    | .error _ => false
  | .ok (some .noSolutions) => (solve numbers target).isEmpty
  | _ => false

/-- The line skips the hand being played, or gives it up. -/
def passes (line : String) : Bool :=
  match Command.parse line true with
  | .ok (some .next) | .ok (some .reveal) => true
  | _ => false

/-- The line asks for a hint for the hand being played. -/
def asksHint (line : String) : Bool :=
  match Command.parse line true with
  | .ok (some .hintHand) => true
  | _ => false

/-- The line ends a hand with these numbers and this target. -/
def ends (numbers : List Nat) (target : Int) (line : String) : Bool :=
  solves numbers target line || passes line ||
    asksHint line && (solve numbers target).isEmpty

theorem asksHint_eq_true {line : String} :
    asksHint line = true ↔ Command.parse line true = .ok (some .hintHand) := by
  rw [asksHint]
  split <;> simp_all only [reduceCtorEq, imp_false]

theorem solves_of_asksHint {line : String} (h : asksHint line = true) (numbers : List Nat)
    (target : Int) : solves numbers target line = false := by
  simp only [solves, asksHint_eq_true.1 h]

theorem passes_of_asksHint {line : String} (h : asksHint line = true) :
    passes line = false := by
  simp only [passes, asksHint_eq_true.1 h]

theorem solves_of_passes {line : String} (h : passes line = true) (numbers : List Nat)
    (target : Int) : solves numbers target line = false := by
  unfold passes at h
  split at h
  next hparse => simp only [solves, hparse]
  next hparse => simp only [solves, hparse]
  next => simp at h

theorem solves_of_ends {numbers : List Nat} {target : Int} {line : String}
    (h : ends numbers target line = false) : solves numbers target line = false := by
  simp only [ends, Bool.or_eq_false_iff] at h
  exact h.1.1

/-- Commands that are not about the hand being played. -/
def Command.isAside : Command → Bool
  | .answer .. | .noSolutions | .next | .reveal | .hintHand => false
  | _ => true

theorem ends_of_isAside {line : String} {command : Command}
    (hparse : Command.parse line true = .ok (some command)) (haside : command.isAside = true)
    (numbers : List Nat) (target : Int) :
    ends numbers target line = false ∧ asksHint line = false := by
  cases command <;>
    simp_all [Command.isAside, ends, solves, passes, asksHint]

/-- The ways to end a hand, with what they record on it. -/
inductive Hand.Ends (hand : Hand) (line : String) : (Hand → Hand) → Prop where
  | solved : solves hand.values hand.target line = true → Ends hand line markSolved
  | passed : passes line = true → Ends hand line id
  | exhausted : asksHint line = true → hand.answers = [] →
      Ends hand line fun hand => hand.hint.2

theorem Hand.Ends.ends_eq_true {hand : Hand} {line : String} {f : Hand → Hand}
    (h : hand.Ends line f) (hanswers : hand.Answered) :
    ends hand.values hand.target line = true := by
  cases h with
  | solved hsolves => simp [ends, hsolves]
  | passed hpasses => simp [ends, hpasses]
  | exhausted hhint hnil =>
    rw [hanswers] at hnil
    simp [ends, hhint, hnil]

/-- A hint for a hand with solutions does not end it. -/
theorem ends_of_asksHint {hand : Hand} {line : String} (h : asksHint line = true)
    (hanswers : hand.Answered) (hne : hand.answers ≠ []) :
    ends hand.values hand.target line = false := by
  rw [hanswers] at hne
  simp [ends, solves_of_asksHint h, passes_of_asksHint h, hne]

namespace Session

/-- What a line does during a game, with its reply and the session after it. -/
inductive Effect (s : Session) (game : Game) (hand : Hand) (line : String) :
    Except Error Reply × Session → Prop where
  | keep {outcome : Except Error Reply × Session} :
      ends hand.values hand.target line = false → asksHint line = false →
        outcome.2.game = some game → Effect s game hand line outcome
  | hint {outcome : Except Error Reply × Session} :
      asksHint line = true → hand.answers ≠ [] →
        outcome.2.game = some (game.updateCurrent fun hand => hand.hint.2) →
          Effect s game hand line outcome
  | deal {f : Hand → Hand} (reply : String) : hand.Ends line f →
      Effect s game hand line (.ok (.text (reply ++ (s.dealFrom (game.updateCurrent f)).1)),
        (s.dealFrom (game.updateCurrent f)).2)
  | stop : ends hand.values hand.target line = false → asksHint line = false →
      Effect s game hand line
        (.ok (.text ("Your result\n" ++ game.summary.text)), { s with game := none })

section During

variable {s : Session} {game : Game} {hand : Hand} {line : String}

theorem dealFrom_updateHand (s : Session) (f : Hand → Hand) (game : Game) :
    (s.updateHand f).dealFrom game = s.dealFrom game := by
  simp only [dealFrom, updateHand]

theorem thenDeal_updateHand (hgame : s.game = some game) (f : Hand → Hand)
    (reply : String) :
    (s.updateHand f).thenDeal reply =
      (reply ++ "\n\n" ++ (s.dealFrom (game.updateCurrent f)).1,
        (s.dealFrom (game.updateCurrent f)).2) := by
  have hupdated : (s.updateHand f).game = some (game.updateCurrent f) := by
    rw [updateHand, hgame, Option.map_some]
  rw [thenDeal, Session.deal, hupdated]
  simp only [dealFrom_updateHand]

theorem updateCurrent_id (game : Game) : game.updateCurrent id = game := by
  rw [Game.updateCurrent, Option.map_id_fun, id]

theorem reachable_of_ends (h : game.Reachable) {f : Hand → Hand} (hends : hand.Ends line f) :
    (game.updateCurrent f).Reachable := by
  cases hends with
  | solved => exact h.solved
  | passed =>
    rw [updateCurrent_id]
    exact h
  | exhausted => exact h.hint

/-- An answer that is judged to be right solves the hand. -/
theorem effect_judge (hgame : s.game = some game) (hcurrent : game.current = some hand)
    {solution : String} {offset : Nat}
    (hparse : Command.parse line true = .ok (some (.answer solution offset))) {e : Expr}
    (hexpr : Expr.parse solution = .ok e) :
    s.Effect game hand line (replyText (s.judge e)) := by
  have hhand : s.currentHand = some hand := currentHand_eq_some.2 ⟨game, hgame, hcurrent⟩
  have hsolves : solves hand.values hand.target line = true ↔
      objection? e hand.values hand.target = none := by
    rw [objection?_eq_none_iff, solves]
    simp [hparse, hexpr]
  have hhint : asksHint line = false := by simp [asksHint, hparse]
  have hpasses : passes line = false := by simp [passes, hparse]
  cases hobjection : objection? e hand.values hand.target with
  | none =>
    have hjudge : s.judge e =
        (s.updateHand Hand.markSolved).thenDeal (praise e hand.answers) := by
      simp only [judge, hhand, hobjection]
    rw [hjudge, thenDeal_updateHand hgame]
    exact .deal _ (.solved (hsolves.2 hobjection))
  | some text =>
    have hjudge : s.judge e = (text, s) := by simp only [judge, hhand, hobjection]
    have hwrong : solves hand.values hand.target line = false := by
      rw [Bool.eq_false_iff, ne_eq, hsolves, hobjection]
      simp
    rw [hjudge]
    exact .keep (by simp [ends, hwrong, hpasses, hhint]) hhint hgame

theorem effect_noSolutions (hgame : s.game = some game)
    (hcurrent : game.current = some hand) (hanswers : hand.Answered)
    (hparse : Command.parse line true = .ok (some .noSolutions)) :
    s.Effect game hand line (replyText s.noSolutions) := by
  have hhand : s.currentHand = some hand := currentHand_eq_some.2 ⟨game, hgame, hcurrent⟩
  have hsolves : solves hand.values hand.target line = hand.answers.isEmpty := by
    rw [hanswers]
    simp only [solves, hparse]
  have hhint : asksHint line = false := by simp [asksHint, hparse]
  have hpasses : passes line = false := by simp [passes, hparse]
  cases hempty : hand.answers.isEmpty with
  | true =>
    have hright : s.noSolutions = (s.updateHand Hand.markSolved).thenDeal Reply.right := by
      simp only [noSolutions, hhand]
      rw [if_pos hempty]
    rw [hright, thenDeal_updateHand hgame]
    exact .deal _ (.solved (hsolves.trans hempty))
  | false =>
    have hwrong : s.noSolutions = (Reply.wrong, s) := by
      simp only [noSolutions, hhand]
      rw [if_neg (by simp [hempty])]
    rw [hwrong]
    exact .keep (by simp [ends, hsolves, hempty, hpasses, hhint]) hhint hgame

theorem effect_hintHand (hgame : s.game = some game) (hcurrent : game.current = some hand)
    (hparse : Command.parse line true = .ok (some .hintHand)) :
    s.Effect game hand line (replyText s.hintHand) := by
  have hhand : s.currentHand = some hand := currentHand_eq_some.2 ⟨game, hgame, hcurrent⟩
  have hhint := asksHint_eq_true.2 hparse
  cases hnext : hand.hint.1 with
  | none =>
    have hended : s.hintHand =
        (s.updateHand fun hand => hand.hint.2).thenDeal Reply.noSolutions := by
      simp only [hintHand, hhand, hnext]
    rw [hended, thenDeal_updateHand hgame]
    exact .deal _ (.exhausted hhint (hand.hint_eq_none_iff.1 hnext))
  | some e =>
    have hne : hand.answers ≠ [] := by
      intro hnil
      rw [hand.hint_eq_none_iff.2 hnil] at hnext
      simp at hnext
    refine .hint hhint hne ?_
    simp only [replyText, hintHand, hhand, hnext, updateHand, hgame, Option.map_some]

theorem effect_pass (hpasses : passes line = true) (reply : String) :
    s.Effect game hand line
      (.ok (.text (reply ++ (s.dealFrom game).1)), (s.dealFrom game).2) := by
  have hends : hand.Ends line id := .passed hpasses
  have hdeal : s.Effect game hand line _ := .deal reply hends
  rwa [updateCurrent_id] at hdeal

theorem effect_perform (hgame : s.game = some game) (hcurrent : game.current = some hand)
    (hanswers : hand.Answered) {command : Command}
    (hparse : Command.parse line true = .ok (some command)) :
    s.Effect game hand line (s.perform command) := by
  have hhand : s.currentHand = some hand := currentHand_eq_some.2 ⟨game, hgame, hcurrent⟩
  have haside : ∀ {outcome : Except Error Reply × Session}, command.isAside = true →
      outcome.2.game = some game → s.Effect game hand line outcome := by
    intro outcome haside hafter
    obtain ⟨hends, hhint⟩ := ends_of_isAside hparse haside hand.values hand.target
    exact .keep hends hhint hafter
  cases command with
  | solve values | target value | help | quit => exact haside rfl hgame
  | hint values => exact haside rfl ((game_hint s values).trans hgame)
  | check values solution offset =>
    refine haside rfl ?_
    rw [perform]
    split <;> exact hgame
  | play =>
    have hplay : s.play = (handText game hand, s) := by
      simp only [play, hgame, hcurrent]
    refine haside rfl ?_
    rw [perform, hplay]
    exact hgame
  | next =>
    have hdeal : s.deal = s.dealFrom game := by rw [Session.deal, hgame]
    have hpass : s.Effect game hand line _ := effect_pass (by simp [passes, hparse]) ""
    rwa [String.empty_append, ← hdeal] at hpass
  | noSolutions => exact effect_noSolutions hgame hcurrent hanswers hparse
  | reveal =>
    have hreveal : s.reveal = s.thenDeal (s.listing hand.answers) := by
      simp only [reveal, hhand]
    rw [perform, hreveal, thenDeal, Session.deal, hgame]
    exact effect_pass (by simp [passes, hparse]) _
  | hintHand => exact effect_hintHand hgame hcurrent hparse
  | answer solution offset =>
    rw [perform]
    split
    next hexpr =>
      exact .keep (by simp [ends, solves, passes, asksHint, hparse, hexpr])
        (by simp [asksHint, hparse]) hgame
    next e hexpr => exact effect_judge hgame hcurrent hparse hexpr
  | stop =>
    have hstop : s.stop = ("Your result\n" ++ game.summary.text, { s with game := none }) := by
      simp only [stop, hgame]
    obtain ⟨hends, hhint⟩ := ends_of_isAside hparse rfl hand.values hand.target
    rw [perform, hstop]
    exact .stop hends hhint

/-- Every line during a game does one of four things. -/
theorem effect_execute (hgame : s.game = some game) (hcurrent : game.current = some hand)
    (hanswers : hand.Answered) (line : String) :
    s.Effect game hand line (s.execute line) := by
  have hplaying : s.game.isSome = true := by rw [hgame]; rfl
  rw [execute, hplaying]
  split
  next hparse =>
    exact .keep (by simp [ends, solves, passes, asksHint, hparse])
      (by simp [asksHint, hparse]) hgame
  next hparse =>
    exact .keep (by simp [ends, solves, passes, asksHint, hparse])
      (by simp [asksHint, hparse]) hgame
  next command hparse => exact effect_perform hgame hcurrent hanswers hparse

/-- During a game there is a hand to play, and every line does one of the four things to it. -/
theorem Reachable.exists_effect (h : s.Reachable) (hgame : s.game = some game)
    (line : String) :
    ∃ hand, s.currentHand = some hand ∧ game.current = some hand ∧ hand.Answered ∧
      s.Effect game hand line (s.execute line) := by
  obtain ⟨hand, hcurrent, -⟩ := h.playable.exists_current game hgame
  have hhand : s.currentHand = some hand := currentHand_eq_some.2 ⟨game, hgame, hcurrent⟩
  have hanswers := h.answered_currentHand hhand
  exact ⟨hand, hhand, hcurrent, hanswers, effect_execute hgame hcurrent hanswers line⟩

/-- A hand that ends makes way for the next one. -/
theorem Reachable.dealFrom_of_ends (h : s.Reachable) (hgame : s.game = some game)
    {f : Hand → Hand} (hends : hand.Ends line f) :
    s.dealFrom (game.updateCurrent f) =
      (s.dealtText (game.updateCurrent f), s.withDealt (game.updateCurrent f)) :=
  dealFrom_eq (reachable_of_ends (h.playable.sound game hgame) hends) s

end During

/-- A line outside of a game starts one, or leaves it at that. -/
theorem idle_execute {s : Session} (hgame : s.game = none) (line : String) :
    (s.execute line).2.game = none ∨
      s.execute line = replyText (s.dealFrom (.start s.playOptions)) := by
  have hidle : s.game.isSome = false := by rw [hgame]; rfl
  rw [execute, hidle]
  split
  next => exact .inl hgame
  next => exact .inl hgame
  next command hparse =>
    have hreadable := Command.readable_of_parse hparse
    cases command with
    | solve values | target value | help | quit => exact .inl hgame
    | hint values => exact .inl ((game_hint s values).trans hgame)
    | check values solution offset =>
      rw [perform]
      split <;> exact .inl hgame
    | play =>
      right
      simp only [perform, play, hgame]
    | next | noSolutions | reveal | hintHand | stop => simp [Command.Readable] at hreadable
    | answer solution offset => simp [Command.Readable] at hreadable

end Session

end TwentyFour
