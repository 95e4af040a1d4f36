import TwentyFour.Proofs.TypedBack

/-!
# No solution, or an answer

The line `none` claims that the hand being played has no solution.  It is judged by
the search, and an answer by its value.

* `Reaches` says that a literal tree over the numbers of a hand has the target as
  its value.
* `Session.AcceptsNone` and `Session.AcceptsAnswer` are the two ways to solve a hand.
  `acceptsNone_iff` and `exists_acceptsAnswer_iff` say when they are open.
* `Session.none_excludes_answers_iff` says when exactly one of them is: for a
  target that is not negative, or that no literal tree over the numbers has as its
  value.
-/

namespace TwentyFour

/-! ## The trees over the numbers of a hand -/

/-- Whether some literal tree over the numbers has this value. -/
def Reaches (values : List Nat) (target : Int) : Prop :=
  ∃ t : Tree, t.leaves.Perm (values.map fun (v : Nat) => (v : Rat)) ∧
    t.eval = some (target : Rat)

/-- A tree over the numbers of a hand can be typed as an answer. -/
theorem answer_of_tree {values : List Nat} {target : Int} {t : Tree}
    (hleaves : t.leaves.Perm (values.map fun (v : Nat) => (v : Rat)))
    (heval : t.eval = some (target : Rat)) (glyphs : Glyphs) :
    TermText (t.canon.render glyphs).toList ∧
      Expr.parse (t.canon.render glyphs) = .ok t.canon ∧
      objection? t.canon values target = none := by
  have hvalue := Tree.value_canon heval
  have hnumbers := t.numbers_canon_perm.trans hleaves
  have hnatural := natural_of_perm hnumbers
  refine ⟨?_, ?_, ?_⟩
  · exact Expr.termText_render t.canonical_canon glyphs hnatural
  · exact Expr.parse_render t.canonical_canon (by rw [hvalue]; rfl) hnatural glyphs
  · exact objection?_eq_none_iff.2 ⟨Expr.usesExactly_iff.2 hnumbers, hvalue⟩

/-- An answer without an objection comes from a tree over the numbers of the hand. -/
theorem reaches_of_parse {values : List Nat} {target : Int} {line : String} {e : Expr}
    (hparse : Expr.parse line = .ok e) (h : objection? e values target = none) :
    Reaches values target := by
  obtain ⟨t, -, rfl, hsome⟩ := Expr.denotes_of_parse hparse
  obtain ⟨v, hv⟩ := Option.isSome_iff_exists.1 hsome
  obtain ⟨huses, hvalue⟩ := objection?_eq_none_iff.1 h
  refine ⟨t, t.numbers_canon_perm.symm.trans (Expr.usesExactly_iff.1 huses), ?_⟩
  rw [hv, ← Tree.value_canon hv, hvalue]

/-- The search finds something exactly if a tree has the target as its value, as long
as the target is not negative. -/
theorem solve_eq_nil_iff_of_nonneg {target : Int} (h : 0 ≤ target) (values : List Nat) :
    solve values target = [] ↔ ¬ Reaches values target := by
  constructor
  · rintro hnil ⟨t, hleaves, heval⟩
    refine solve_ne_nil_of_tree hleaves heval ?_ hnil
    exact abs_of_nonneg (by exact_mod_cast h)
  · intro hreaches
    refine List.eq_nil_iff_forall_not_mem.2 fun e he => hreaches ?_
    obtain ⟨hcanonical, hvalue, hnumbers⟩ := sound_of_mem_solve he
    refine ⟨e.toTree, ?_, ?_⟩
    · rw [Expr.leaves_toTree hcanonical]
      exact hnumbers
    · rw [Expr.eval_toTree hcanonical, hvalue]

namespace Session

/-! ## Two ways to solve a hand -/

/-- After a line, the hand that was being played is recorded as solved: among the
hands of the set that are over, or in the totals that the line prints if the set is
over, too. -/
def RecordsSolved (s : Session) (text : String) (after : Session) : Prop :=
  ∃ game hand next, s.game = some game ∧ game.current = some hand ∧
    after.game = some next ∧
      (next.past = game.past ++ [{ hand with result := .solved }] ∨
        next.past = [] ∧ ∃ before behind, text = before ++
          (Summary.ofHands (game.past ++ [{ hand with result := .solved }])).text ++ behind)

/-- The line `none` is accepted for the hand being played. -/
def AcceptsNone (s : Session) : Prop :=
  ∃ rest after, s.execute "none" = (.ok (.text (Reply.right ++ rest)), after) ∧
    s.RecordsSolved rest after

/-- The line is accepted as a correct answer to the hand being played. -/
def AcceptsAnswer (s : Session) (line : String) : Prop :=
  (∃ solution offset,
    Command.parse line s.game.isSome = .ok (some (.answer solution offset))) ∧
  ∃ rest after, s.execute line = (.ok (.text ("Good job!" ++ rest)), after) ∨
    s.execute line = (.ok (.text ("Great job!" ++ rest)), after)

section Playing

variable {s : Session} {hand : Hand}

theorem execute_none (hhand : s.currentHand = some hand) :
    s.execute "none" = replyText s.noSolutions := by
  have hparse : Command.parse "none" true = .ok (some .noSolutions) := rfl
  simp only [execute, isSome_game hhand, hparse, perform]

/-- Ending a hand as solved records it so, also when the set ends with it. -/
theorem recordsSolved_thenDeal (h : s.Reachable) (hhand : s.currentHand = some hand)
    (hhinted : hand.hinted = false) (reply : String) :
    ∃ rest after, (s.updateHand Hand.markSolved).thenDeal reply = (reply ++ rest, after) ∧
      s.RecordsSolved rest after := by
  obtain ⟨game, hgame, hcurrent⟩ := currentHand_eq_some.1 hhand
  obtain ⟨ended, hended⟩ : ∃ ended, ended = game.updateCurrent Hand.markSolved := ⟨_, rfl⟩
  have hreachable : ended.Reachable := hended ▸ (h.playable.sound game hgame).solved
  have hgame' : (s.updateHand Hand.markSolved).game = some ended := by
    rw [hended, updateHand, hgame, Option.map_some]
  have hhands : ended.hands = game.past ++ [{ hand with result := .solved }] := by
    rw [hended, Game.hands, Game.updateCurrent, hcurrent]
    simp [Hand.markSolved, hhinted]
  refine ⟨_, _, thenDeal_eq hgame' hreachable reply, ?_⟩
  refine ⟨game, hand, _, hgame, hcurrent, rfl, ?_⟩
  -- A new set forgets the hands, but the totals of the old one are printed first.
  cases hend : ended.isSetEnd with
  | false =>
    left
    show ended.refilled.hands = _
    rw [Game.refilled, hend, if_neg (by simp), hhands]
  | true =>
    right
    constructor
    · show ended.refilled.hands = []
      rw [Game.refilled, hend, if_pos rfl, Game.hands_reset]
    · obtain ⟨rest, hrest⟩ :=
        exists_dealtText_of_isSetEnd hend (s.updateHand Hand.markSolved)
      refine ⟨"\n\n" ++ "Set end, your result\n", "\n\n" ++ rest, ?_⟩
      rw [hrest]
      unfold setEndText
      rw [Game.summary, hhands]
      simp only [String.append_assoc]

theorem ne_append_of_head? {text praise : String} (htext : text.toList.head? = some 'S')
    (hpraise : praise.toList.head? = some 'G') (rest : String) : text ≠ praise ++ rest := by
  rintro rfl
  rw [String.toList_append, List.head?_append, hpraise] at htext
  simp at htext

/-- The claim that there is no solution is accepted if the search found none. -/
theorem acceptsNone_iff (h : s.Reachable) (hhand : s.currentHand = some hand) :
    s.AcceptsNone ↔ hand.answers = [] := by
  rw [AcceptsNone, execute_none hhand]
  constructor
  · rintro ⟨rest, after, hreply, -⟩
    by_contra hne
    have hwrong : s.noSolutions = (Reply.wrong, s) := by
      simp only [noSolutions, hhand]
      rw [if_neg (by simpa using hne)]
    have hhead : Reply.wrong.toList.head? = some 'S' := rfl
    rw [hwrong, replyText, Prod.mk.injEq, Except.ok.injEq, Reply.text.injEq] at hreply
    exact ne_append_of_head? hhead rfl rest hreply.1
  · intro hnil
    have hhinted := h.hinted_currentHand hhand hnil
    obtain ⟨rest, after, hdeal, hrecords⟩ :=
      recordsSolved_thenDeal h hhand hhinted Reply.right
    have hright : s.noSolutions = (Reply.right ++ rest, after) := by
      simp only [noSolutions, hhand]
      rw [if_pos (by simp [hnil]), hdeal]
    exact ⟨rest, after, by rw [hright]; rfl, hrecords⟩

theorem execute_answer_eq (hhand : s.currentHand = some hand) {line : String}
    (hparse : Command.parse line true = .ok (some (.answer line 0))) :
    s.execute line = s.perform (.answer line 0) := by
  simp only [execute, isSome_game hhand, hparse]

theorem exists_judge_eq (hhand : s.currentHand = some hand) {e : Expr}
    (h : objection? e hand.values hand.target = none) :
    ∃ rest after, s.judge e = ("Good job!" ++ rest, after) ∨
      s.judge e = ("Great job!" ++ rest, after) := by
  have hjudge : s.judge e =
      (s.updateHand Hand.markSolved).thenDeal (praise e hand.answers) := by
    simp only [judge, hhand, h]
  obtain ⟨rest, after, hrest⟩ :=
    (s.updateHand Hand.markSolved).exists_thenDeal (praise e hand.answers)
  rw [hjudge, hrest]
  rcases praise_eq e hand.answers with hpraise | hpraise
  · rw [hpraise]
    exact ⟨rest, after, .inl rfl⟩
  · have hunexpected : Reply.unexpected =
        "Great job!" ++ " That is a valid solution the solver did not find." := rfl
    rw [hpraise, hunexpected, String.append_assoc]
    exact ⟨_, after, .inr rfl⟩

/-- A line is accepted as an answer if it parses without an objection. -/
theorem acceptsAnswer_iff (hhand : s.currentHand = some hand) {line : String} :
    s.AcceptsAnswer line ↔
      Command.parse line true = .ok (some (.answer line 0)) ∧
      ∃ e, Expr.parse line = .ok e ∧ objection? e hand.values hand.target = none := by
  rw [AcceptsAnswer, isSome_game hhand]
  constructor
  · rintro ⟨⟨solution, offset, hparse⟩, rest, after, hreply⟩
    obtain ⟨-, rfl, rfl⟩ := Command.readable_of_parse hparse
    rw [execute_answer_eq hhand hparse] at hreply
    refine ⟨hparse, ?_⟩
    cases hexpr : Expr.parse solution with
    | error err =>
      simp [perform, hexpr] at hreply
    | ok e =>
      refine ⟨e, rfl, ?_⟩
      cases hobjection : objection? e hand.values hand.target with
      | none => rfl
      | some text =>
        have hjudge : s.judge e = (text, s) := by simp only [judge, hhand, hobjection]
        have hhead := head?_objection? hobjection
        simp only [perform, hexpr, hjudge, replyText, Prod.mk.injEq, Except.ok.injEq,
          Reply.text.injEq] at hreply
        rcases hreply with ⟨htext, -⟩ | ⟨htext, -⟩
        · exact absurd htext (ne_append_of_head? hhead rfl rest)
        · exact absurd htext (ne_append_of_head? hhead rfl rest)
  · rintro ⟨hparse, e, hexpr, hnone⟩
    refine ⟨⟨line, 0, hparse⟩, ?_⟩
    have hreply : s.execute line = replyText (s.judge e) := by
      simp only [execute_answer_eq hhand hparse, perform, hexpr]
    obtain ⟨rest, after, hjudge | hjudge⟩ := exists_judge_eq hhand hnone
    · exact ⟨rest, after, .inl (by rw [hreply, hjudge]; rfl)⟩
    · exact ⟨rest, after, .inr (by rw [hreply, hjudge]; rfl)⟩

theorem acceptsAnswer_of_tree (hhand : s.currentHand = some hand) {t : Tree}
    (hleaves : t.leaves.Perm (hand.values.map fun (v : Nat) => (v : Rat)))
    (heval : t.eval = some (hand.target : Rat)) (glyphs : Glyphs) :
    s.AcceptsAnswer (t.canon.render glyphs) := by
  obtain ⟨htext, hparse, hnone⟩ := answer_of_tree hleaves heval glyphs
  exact (acceptsAnswer_iff hhand).2
    ⟨Command.parse_of_termText htext, t.canon, hparse, hnone⟩

/-- A right answer can be typed exactly if a tree reaches the target. -/
theorem exists_acceptsAnswer_iff (hhand : s.currentHand = some hand) :
    (∃ line, s.AcceptsAnswer line) ↔ Reaches hand.values hand.target := by
  constructor
  · rintro ⟨line, hline⟩
    obtain ⟨-, e, hparse, hnone⟩ := (acceptsAnswer_iff hhand).1 hline
    exact reaches_of_parse hparse hnone
  · rintro ⟨t, hleaves, heval⟩
    exact ⟨_, acceptsAnswer_of_tree hhand hleaves heval .unicode⟩

end Playing

/-- During a game, `none` is accepted exactly if no line is accepted as an answer to
the same hand, for all hands but those with a negative target that a tree over their
numbers has as its value: the search finds nothing below zero. -/
theorem none_excludes_answers_iff {s : Session} (h : s.Reachable)
    (hgame : s.game.isSome = true) :
    ∃ hand, s.currentHand = some hand ∧
      ((s.AcceptsNone ↔ ¬ ∃ line, s.AcceptsAnswer line) ↔
        0 ≤ hand.target ∨ ¬ Reaches hand.values hand.target) := by
  obtain ⟨hand, hhand⟩ := h.exists_currentHand hgame
  refine ⟨hand, hhand, ?_⟩
  have hanswers : hand.answers = solve hand.values hand.target :=
    h.answered_currentHand hhand
  rw [acceptsNone_iff h hhand, exists_acceptsAnswer_iff hhand, hanswers]
  by_cases htarget : 0 ≤ hand.target
  · rw [solve_eq_nil_iff_of_nonneg htarget]
    simp [htarget]
  · -- There are no answers to find, so that `none` is accepted in any case.
    rw [solve_eq_nil_of_neg (by omega)]
    simp [htarget]

/-- A game with hands of two cards, of which the first is 1, 2. -/
def oneAndTwo (target : Int) : Session :=
  ((start .unicode ⟨2, false, false⟩ target ⟨[0, 4]⟩).execute "play").2

theorem reachable_oneAndTwo (target : Int) : (oneAndTwo target).Reachable :=
  .execute _ (.start _ _ _ _)

theorem currentHand_oneAndTwo (target : Int) : (oneAndTwo target).currentHand =
    some (.ofCards [⟨1, .spades⟩, ⟨2, .spades⟩] false target) :=
  rfl

/-- For the hand 1, 2 and the target 24, `none` is right and there is no answer. -/
theorem none_excludes_answers_one_two :
    (oneAndTwo 24).Reachable ∧ (oneAndTwo 24).game.isSome = true ∧
      (oneAndTwo 24).AcceptsNone ∧ ¬ ∃ line, (oneAndTwo 24).AcceptsAnswer line := by
  have hreachable := reachable_oneAndTwo 24
  have hhand := currentHand_oneAndTwo 24
  have hgame : (oneAndTwo 24).game.isSome = true := isSome_game hhand
  obtain ⟨hand, hcurrent, hiff⟩ := none_excludes_answers_iff hreachable hgame
  obtain rfl := Option.some.inj (hhand.symm.trans hcurrent)
  have hagree := hiff.2 (.inl (by decide))
  have hnone : (oneAndTwo 24).AcceptsNone := by
    rw [acceptsNone_iff hreachable hhand]
    show solve [1, 2] 24 = []
    rw [solve_eq_plainSolve_self (by decide)]
    decide +kernel
  exact ⟨hreachable, hgame, hnone, hagree.1 hnone⟩

/-- For the hand 1, 2 and the target -1, both `none` and `1 - 2` are accepted. -/
theorem acceptsNone_and_acceptsAnswer_one_minus_two :
    (oneAndTwo (-1)).Reachable ∧ (oneAndTwo (-1)).game.isSome = true ∧
      (oneAndTwo (-1)).AcceptsNone ∧ (oneAndTwo (-1)).AcceptsAnswer "1 - 2" ∧
      ¬ ((oneAndTwo (-1)).AcceptsNone ↔ ¬ ∃ line, (oneAndTwo (-1)).AcceptsAnswer line) := by
  have hreachable := reachable_oneAndTwo (-1)
  have hhand := currentHand_oneAndTwo (-1)
  have hnone : (oneAndTwo (-1)).AcceptsNone :=
    (acceptsNone_iff hreachable hhand).2 (solve_eq_nil_of_neg (by decide) [1, 2])
  have hanswer : (oneAndTwo (-1)).AcceptsAnswer "1 - 2" := by
    have hrender : (Tree.node .additive true (.leaf 1) (.leaf 2)).canon.render .unicode =
        "1 - 2" := by
      decide +kernel
    rw [← hrender]
    refine acceptsAnswer_of_tree hhand ?_ ?_ .unicode
    · exact .refl _
    · decide +kernel
  refine ⟨hreachable, isSome_game hhand, hnone, hanswer, fun hiff => ?_⟩
  exact hiff.1 hnone ⟨_, hanswer⟩

end Session

end TwentyFour
