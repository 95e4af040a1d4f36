import TwentyFour.Proofs.HintCycles

/-!
# Lines that change nothing

* `words_eq_nil_iff` and `Command.parse_eq_none_iff` are about blank lines.
* `Session.Refuses` lists the lines that are refused, and those that only ask.
  `execute_of_refuses` goes through them.
* `Session.Repeats` lists the lines that say what was said before: the target in force,
  and a hint for a hand without solutions.
* `withDealt_ne` says that a session is another one when a hand was dealt.
  `refuses_or_repeats_of_idle` and `refuses_or_repeats_of_playing` go through the lines that
  leave a session as it is.
* `Session.execute_eq_self_iff` is the result: no other lines leave the session as it is.
-/

namespace TwentyFour

/-! ## Blank lines -/

theorem words_eq_nil_iff (start : Nat) {cs : List Char} :
    words start cs = [] ↔ ∀ c ∈ cs, isBlank c = true := by
  constructor
  · intro h
    rcases blank_or_word cs with hblank | ⟨before, inside, after, rfl, hat⟩
    · exact hblank
    · obtain ⟨hbefore⟩ := hat.lead
      rw [List.append_assoc, words_blanks hbefore, words_append hat.word hat.ends] at h
      simp at h
  · intro h
    have hwords := words_blanks h start []
    rw [List.append_nil] at hwords
    rw [hwords]
    rfl

theorem Command.parse_eq_none_iff {line : String} {playing : Bool} :
    parse line playing = .ok none ↔ ∀ c ∈ line.toList, isBlank c = true := by
  rw [← words_eq_nil_iff 0, parse]
  split
  next hwords => simp [hwords]
  next first others hwords =>
    rw [hwords]
    cases readWords line playing first others <;> simp

namespace Session

/-! ## Lines that are refused or only ask -/

/-- The line is refused, or it only asks: it gives an error, it is blank, it asks for help, for
the end, for the solutions of numbers or for a check, it asks for a game during one, it is an
answer with other numbers or another value, or it is `none` for a hand with solutions. -/
inductive Refuses (s : Session) (line : String) : Prop where
  | error {e : Error} : (s.execute line).1 = .error e → Refuses s line
  | blank : (∀ c ∈ line.toList, isBlank c = true) → Refuses s line
  | help : Command.parse line s.game.isSome = .ok (some .help) → Refuses s line
  | quit : Command.parse line s.game.isSome = .ok (some .quit) → Refuses s line
  | solve {values : List Nat} :
      Command.parse line s.game.isSome = .ok (some (.solve values)) → Refuses s line
  | check {values : List Nat} {solution : String} {offset : Nat} :
      Command.parse line s.game.isSome = .ok (some (.check values solution offset)) →
        Refuses s line
  | play : Command.parse line s.game.isSome = .ok (some .play) → s.game.isSome = true →
      Refuses s line
  | answer {solution : String} {offset : Nat} {e : Expr} {hand : Hand} :
      Command.parse line s.game.isSome = .ok (some (.answer solution offset)) →
        Expr.parse solution = .ok e → s.currentHand = some hand →
          e.usesExactly hand.values = false ∨ e.value ≠ some (hand.target : Rat) →
            Refuses s line
  | noSolutions {hand : Hand} :
      Command.parse line s.game.isSome = .ok (some .noSolutions) →
        s.currentHand = some hand → hand.answers ≠ [] → Refuses s line

/-- The line says what was said before: it sets the target that is in force, or it asks again
for a hint for the hand that the last one was for, which has no solutions. -/
inductive Repeats (s : Session) (line : String) : Prop where
  | target : Command.parse line s.game.isSome = .ok (some (.target s.target)) → Repeats s line
  | hint {numbers : List Nat} {hints : Hints} :
      Command.parse line s.game.isSome = .ok (some (.hint numbers)) →
        s.hinted = some ⟨sortBy compare numbers, s.target, hints⟩ → hints.answers = [] →
          Repeats s line

section Lines

variable {s : Session} {line : String}

theorem judge_of_wrong {hand : Hand} {e : Expr} (hhand : s.currentHand = some hand)
    (hwrong : e.usesExactly hand.values = false ∨ e.value ≠ some (hand.target : Rat)) :
    (s.judge e).2 = s := by
  cases hobjection : objection? e hand.values hand.target with
  | none =>
    obtain ⟨huses, hvalue⟩ := objection?_eq_none_iff.1 hobjection
    simp [huses, hvalue] at hwrong
  | some text => simp only [judge, hhand, hobjection]

theorem execute_of_refuses (hreachable : s.Reachable) (h : s.Refuses line) :
    (s.execute line).2 = s := by
  cases h with
  | error herror => exact execute_error (Prod.ext herror rfl)
  | blank hblank => rw [execute, Command.parse_eq_none_iff.2 hblank]
  | help hparse | quit hparse | solve hparse =>
    rw [execute, hparse]
    rfl
  | check hparse =>
    rw [execute, hparse]
    simp only [perform]
    split <;> rfl
  | play hparse hgame =>
    obtain ⟨hand, hhand⟩ := hreachable.exists_currentHand hgame
    obtain ⟨game, hgame, hcurrent⟩ := currentHand_eq_some.1 hhand
    rw [execute, hparse]
    simp only [perform, play, hgame, hcurrent, replyText]
  | answer hparse hexpr hhand hwrong =>
    rw [execute, hparse]
    simp only [perform, hexpr, replyText, judge_of_wrong hhand hwrong]
  | noSolutions hparse hhand hne =>
    rw [execute, hparse]
    simp only [perform, noSolutions, hhand, replyText]
    rw [if_neg (by simpa using hne)]

/-! ## Lines that say the same again -/

theorem hintsFor_of_hinted {values : List Nat} {hints : Hints}
    (h : s.hinted = some ⟨values, s.target, hints⟩) : s.hintsFor values = hints := by
  simp [hintsFor, h]

/-- A hint for numbers changes the session, unless it is asked for again and there is none. -/
theorem hint_eq_self_iff {numbers : List Nat} :
    (s.hint numbers).2 = s ↔
      ∃ hints, s.hinted = some ⟨sortBy compare numbers, s.target, hints⟩ ∧
        hints.answers = [] := by
  constructor
  · intro h
    simp only [hint] at h
    split at h
    next hnone =>
      exact ⟨_, (congrArg Session.hinted h).symm, (Hints.next_eq_none_iff _).1 hnone⟩
    next e later hnext =>
      -- The hints that are stored would have to be later than themselves.
      have hlater := hintsFor_of_hinted (congrArg Session.hinted h).symm
      have hgiven := Hints.given_of_next hnext
      rw [hlater] at hgiven
      omega
  · rintro ⟨hints, hhinted, hnil⟩
    have hnone := hints.next_eq_none_iff.2 hnil
    simp only [hint, hintsFor_of_hinted hhinted, hnone]
    rw [← hhinted]

theorem execute_of_repeats (h : s.Repeats line) : (s.execute line).2 = s := by
  cases h with
  | target hparse =>
    rw [execute, hparse]
    rfl
  | hint hparse hhinted hnil =>
    rw [execute, hparse]
    exact hint_eq_self_iff.2 ⟨_, hhinted, hnil⟩

/-! ## Lines that change something -/

section Changed

variable {game : Game} {hand : Hand}

/-- A session is another one when a hand was dealt. -/
theorem withDealt_ne (hgame : s.game = some game) (f : Hand → Hand) :
    s.withDealt (game.updateCurrent f) ≠ s := by
  intro h
  have hsame : (game.updateCurrent f).refilled.dealt s.picks s.target = game :=
    Option.some.inj ((congrArg Session.game h).trans hgame)
  have hcases := (game.updateCurrent f).newSet_or_newHand s.picks s.target
  rw [hsame, length_hands_updateCurrent] at hcases
  rcases hcases with ⟨hset, -⟩ | ⟨-, hlength⟩
  · exact Nat.succ_ne_self game.set hset.symm
  · omega

theorem dealFrom_start_ne (hgame : s.game = none) :
    (s.dealFrom (.start s.playOptions)).2 ≠ s := by
  intro h
  rw [dealFrom_eq (.start s.playOptions)] at h
  have hsome := congrArg Session.game h
  rw [hgame] at hsome
  simp [withDealt] at hsome

/-- Hints that were taken for the hand being played are counted. -/
theorem updateCurrent_hint_ne (hcurrent : game.current = some hand) (hne : hand.answers ≠ []) :
    game.updateCurrent (fun hand => hand.hint.2) ≠ game := by
  intro h
  have hsame := congrArg Game.current h
  rw [Game.updateCurrent, hcurrent, Option.map_some, Option.some.injEq] at hsame
  have hgiven := given_hint hne
  rw [hsame] at hgiven
  omega

end Changed

/-- A command that is not about the hand being played, and begins or ends no game, is one that
only asks, or it repeats what was said, if it leaves the session as it is. -/
theorem refuses_or_repeats_of_isAside {command : Command}
    (hparse : Command.parse line s.game.isSome = .ok (some command))
    (haside : command.isAside = true) (hplay : command = .play → s.game.isSome = true)
    (hstop : command ≠ .stop) (h : (s.perform command).2 = s) :
    s.Refuses line ∨ s.Repeats line := by
  cases command with
  | solve values => exact .inl (.solve hparse)
  | check values solution offset => exact .inl (.check hparse)
  | help => exact .inl (.help hparse)
  | quit => exact .inl (.quit hparse)
  | play => exact .inl (.play hparse (hplay rfl))
  | stop => exact absurd rfl hstop
  | target value =>
    obtain rfl : value = s.target := congrArg Session.target h
    exact .inr (.target hparse)
  | hint numbers =>
    obtain ⟨hints, hhinted, hnil⟩ := hint_eq_self_iff.1 h
    exact .inr (.hint hparse hhinted hnil)
  | answer solution offset | noSolutions | next | reveal | hintHand =>
    simp [Command.isAside] at haside

/-- A line that is not refused as it stands gives a command. -/
theorem refuses_or_exists_command (h : (s.execute line).2 = s) :
    s.Refuses line ∨ ∃ command,
      Command.parse line s.game.isSome = .ok (some command) ∧ (s.perform command).2 = s := by
  cases hparse : Command.parse line s.game.isSome with
  | error e => exact .inl (.error (by rw [execute, hparse]))
  | ok read =>
    cases read with
    | none => exact .inl (.blank (Command.parse_eq_none_iff.1 hparse))
    | some command =>
      rw [execute, hparse] at h
      exact .inr ⟨command, rfl, h⟩

theorem refuses_or_repeats_of_idle (hgame : s.game = none) (h : (s.execute line).2 = s) :
    s.Refuses line ∨ s.Repeats line := by
  have hidle : s.game.isSome = false := by rw [hgame]; rfl
  rcases refuses_or_exists_command h with hrefuses | ⟨command, hparse, hsame⟩
  · exact .inl hrefuses
  have hreadable := Command.readable_of_parse hparse
  rw [hidle] at hreadable
  cases command with
  | play =>
    rw [perform, play, hgame] at hsame
    exact absurd hsame (dealFrom_start_ne hgame)
  | next | noSolutions | reveal | hintHand | stop => simp [Command.Readable] at hreadable
  | answer solution offset => simp [Command.Readable] at hreadable
  | solve values | hint values | check values solution offset | target value | help | quit =>
    exact refuses_or_repeats_of_isAside hparse rfl (by simp) (by simp) hsame

/-- A line that leaves the hand being played alone may still have begun as an answer to it. -/
theorem refuses_or_repeats_of_keep {hand : Hand} (hhand : s.currentHand = some hand)
    (hanswers : hand.Answered) (hends : ends hand.values hand.target line = false)
    (hhint : asksHint line = false) (h : (s.execute line).2 = s) :
    s.Refuses line ∨ s.Repeats line := by
  have hgame := isSome_game hhand
  rcases refuses_or_exists_command h with hrefuses | ⟨command, hparse, hsame⟩
  · exact .inl hrefuses
  have hplaying := hparse
  rw [hgame] at hplaying
  cases command with
  | answer solution offset =>
    cases hexpr : Expr.parse solution with
    | error e =>
      refine .inl (.error (e := e.shift offset) ?_)
      simp only [execute, hparse, perform, hexpr]
    | ok e =>
      refine .inl (.answer hparse hexpr hhand ?_)
      simpa [ends, solves, passes, asksHint, hplaying, hexpr, imp_iff_not_or] using hends
  | noSolutions =>
    refine .inl (.noSolutions hparse hhand ?_)
    rw [hanswers]
    simpa [ends, solves, passes, asksHint, hplaying] using hends
  | next | reveal => simp [ends, passes, hplaying] at hends
  | hintHand => simp [asksHint, hplaying] at hhint
  | stop =>
    obtain ⟨game, hon⟩ := Option.isSome_iff_exists.1 hgame
    have hnone := congrArg Session.game hsame
    simp [perform, replyText, stop, hon] at hnone
  | solve values | hint values | check values solution offset | target value | help | quit
  | play =>
    exact refuses_or_repeats_of_isAside hparse rfl (fun _ => hgame) (by simp) hsame

/-- During a game a line changes the session if it takes a hint for the hand being played,
deals the next one, or ends the game. -/
theorem refuses_or_repeats_of_playing (hreachable : s.Reachable) {game : Game}
    (hgame : s.game = some game) (h : (s.execute line).2 = s) :
    s.Refuses line ∨ s.Repeats line := by
  obtain ⟨hand, hhand, hcurrent, hanswers, heffect⟩ := hreachable.exists_effect hgame line
  generalize hout : s.execute line = outcome at heffect h
  cases heffect with
  | keep hends hhint _ =>
    rw [← hout] at h
    exact refuses_or_repeats_of_keep hhand hanswers hends hhint h
  | hint _ hne hafter =>
    rw [h, hgame] at hafter
    exact absurd (Option.some.inj hafter).symm (updateCurrent_hint_ne hcurrent hne)
  | deal _ hends =>
    rw [hreachable.dealFrom_of_ends hgame hends] at h
    exact absurd h (withDealt_ne hgame _)
  | stop _ _ =>
    have hnone := congrArg Session.game h
    simp [hgame] at hnone

end Lines

/-- A line leaves the session as it is exactly if it is refused, only asks, or says what was
said before.  So a refused line changes nothing: not the target, not the place in the hints,
not the hands and their results, and not the cards to come. -/
theorem execute_eq_self_iff {s : Session} (h : s.Reachable) (line : String) :
    (s.execute line).2 = s ↔ s.Refuses line ∨ s.Repeats line := by
  constructor
  · intro hsame
    cases hgame : s.game with
    | none => exact refuses_or_repeats_of_idle hgame hsame
    | some game => exact refuses_or_repeats_of_playing h hgame hsame
  · rintro (hrefuses | hrepeats)
    · exact execute_of_refuses h hrefuses
    · exact execute_of_repeats hrepeats

/-- The answer `2 - 1` uses the numbers of the hand 1, 2, but its value is not the target 3. -/
theorem execute_eq_self_two_minus_one :
    (oneAndTwo 3).Reachable ∧ (oneAndTwo 3).Refuses "2 - 1" ∧
      ((oneAndTwo 3).execute "2 - 1").2 = oneAndTwo 3 := by
  have hreachable := reachable_oneAndTwo 3
  have hexpr : Expr.parse "2 - 1" =
      .ok (.compound .additive [⟨false, .number 2⟩, ⟨true, .number 1⟩]) := by
    decide +kernel
  have hparse : Command.parse "2 - 1" (oneAndTwo 3).game.isSome =
      .ok (some (.answer "2 - 1" 0)) := rfl
  have hrefuses : (oneAndTwo 3).Refuses "2 - 1" :=
    .answer hparse hexpr (currentHand_oneAndTwo 3) (.inr (by decide +kernel))
  exact ⟨hreachable, hrefuses, (execute_eq_self_iff hreachable "2 - 1").2 (.inl hrefuses)⟩

end Session

end TwentyFour
