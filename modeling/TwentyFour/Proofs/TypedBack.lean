import TwentyFour.Proofs.Answers
import TwentyFour.Proofs.Commands
import TwentyFour.Proofs.Sessions

/-!
# Solutions that are typed back

* `parse_render_of_mem_solve` and the lemmas beside it are about one answer of a
  hand: its text is one line, it parses as the answer, also behind a blank, and
  there is no objection to it.
* `Session.lines_listing` cuts a list of solutions into their texts.
* `Session.execute_check` and `Session.execute_answer` type one of them back.
* `Session.typed_back` is the result about all solutions that are printed.
-/

namespace TwentyFour

/-! ## One answer -/

section Answer

variable {values : List Nat} {target : Int} {e : Expr}

theorem natural_of_mem_solve (h : e ∈ solve values target) :
    ∀ v ∈ e.numbers, ∃ n : Nat, v = n :=
  natural_of_perm (sound_of_mem_solve h).2.2

theorem termText_of_mem_solve (h : e ∈ solve values target) (glyphs : Glyphs) :
    TermText (e.render glyphs).toList :=
  Expr.termText_render (sound_of_mem_solve h).1 glyphs (natural_of_mem_solve h)

theorem parse_render_of_mem_solve (h : e ∈ solve values target) (glyphs : Glyphs) :
    Expr.parse (e.render glyphs) = .ok e ∧ Expr.parse (" " ++ e.render glyphs) = .ok e := by
  obtain ⟨hcanonical, hvalue, -⟩ := sound_of_mem_solve h
  have hsome : e.value.isSome := by rw [hvalue]; rfl
  have hnatural := natural_of_mem_solve h
  constructor
  · exact Expr.parse_render hcanonical hsome hnatural glyphs
  · have hwords : visibleWords (" " ++ e.render glyphs).toList =
        visibleWords (e.render glyphs).toList := by
      rw [String.toList_append]
      exact visibleWords_blank (c := ' ') rfl _
    exact Expr.parse_of_visibleWords hcanonical hsome hnatural hwords

theorem objection?_of_mem_solve (h : e ∈ solve values target) :
    objection? e values target = none :=
  objection?_eq_none_iff.2 ⟨usesExactly_of_mem_solve h, (sound_of_mem_solve h).2.1⟩

end Answer

namespace Session

/-! ## A list of solutions -/

/-- The lines of a list of answers are the texts of the answers. -/
theorem lines_listing (s : Session) {values : List Nat} {target : Int}
    (hne : solve values target ≠ []) :
    lines (s.listing (solve values target)) =
      (solve values target).map fun e => e.render s.glyphs := by
  have hline : ∀ e ∈ solve values target, OneLine (e.render s.glyphs).toList :=
    fun e he => (termText_of_mem_solve he s.glyphs).toOneLine
  rw [listing, if_neg (by simpa using hne), lines_intercalate]
  simpa only [List.forall_mem_map] using hline

/-! ## Typing one of them back -/

theorem execute_solve {s : Session} {line : String} {values : List Nat}
    (h : Command.parse line s.game.isSome = .ok (some (.solve values))) :
    s.execute line = (.ok (.text (s.listing (solve values s.target))), s) := by
  simp only [execute, h]
  rfl

/-- A solution for the numbers passes the check. -/
theorem execute_check {s : Session} {values : List Nat} (hvalues : Command.Numbers values)
    {e : Expr} (he : e ∈ solve values s.target) :
    s.execute ("check " ++ naturalsText " " values ++ " : " ++ e.render s.glyphs) =
      (.ok (.text Reply.right), s) := by
  obtain ⟨offset, hparse⟩ :=
    Command.parse_check hvalues (e.render s.glyphs) s.game.isSome
  have hcheck : s.check values (" " ++ e.render s.glyphs) = .ok Reply.right := by
    rw [check, (parse_render_of_mem_solve he s.glyphs).2]
    simp only [objection?_of_mem_solve he, praise_of_mem he]
  simp only [execute, hparse, perform, hcheck]
  rfl

/-- A solution of the hand being played is a right answer to it. -/
theorem execute_answer {s : Session} {hand : Hand} (hhand : s.currentHand = some hand)
    (hanswered : hand.Answered) {e : Expr} (he : e ∈ hand.answers) :
    s.execute (e.render s.glyphs) =
      replyText ((s.updateHand Hand.markSolved).thenDeal Reply.right) := by
  have hmem : e ∈ solve hand.values hand.target := hanswered ▸ he
  have hparse := Command.parse_of_termText (termText_of_mem_solve hmem s.glyphs)
  have hjudge : s.judge e = (s.updateHand Hand.markSolved).thenDeal Reply.right := by
    simp only [judge, hhand, objection?_of_mem_solve hmem, praise_of_mem he]
  simp only [execute, isSome_game hhand, hparse, perform,
    (parse_render_of_mem_solve hmem s.glyphs).1, hjudge]

theorem execute_show {s : Session} {hand : Hand} (hhand : s.currentHand = some hand) :
    s.execute "show" = replyText (s.thenDeal (s.listing hand.answers)) := by
  have hparse : Command.parse "show" true = .ok (some .reveal) := rfl
  have hreveal : s.reveal = s.thenDeal (s.listing hand.answers) := by
    simp only [reveal, hhand]
  simp only [execute, isSome_game hhand, hparse, perform, hreveal]

/-- What is printed as a solution is accepted when it is typed back.  Each line of
the reply to a hand passes a check of the same numbers, and each solution that `show`
has for the hand being played is a right answer to it, whatever lines came in
between. -/
theorem typed_back (s : Session) :
    (∀ line values, Command.parse line s.game.isSome = .ok (some (.solve values)) →
      ∃ text, s.execute line = (.ok (.text text), s) ∧
        (text ≠ Reply.noSolutions →
          (lines text = (solve values s.target).map fun e => e.render s.glyphs) ∧
          ∀ solution ∈ lines text,
            s.execute ("check " ++ naturalsText " " values ++ " : " ++ solution) =
              (.ok (.text Reply.right), s))) ∧
    (s.Reachable → ∀ hand, s.currentHand = some hand →
      (∃ rest after, s.execute "show" =
        (.ok (.text (s.listing hand.answers ++ "\n\n" ++ rest)), after)) ∧
      (hand.answers ≠ [] →
        (lines (s.listing hand.answers) = hand.answers.map fun e => e.render s.glyphs) ∧
        ∀ solution ∈ lines (s.listing hand.answers),
          Command.parse solution s.game.isSome = .ok (some (.answer solution 0)) ∧
          ∃ rest after, s.execute solution =
            (.ok (.text (Reply.right ++ "\n\n" ++ rest)), after))) := by
  constructor
  · intro line values hparse
    refine ⟨_, execute_solve hparse, fun hsome => ?_⟩
    have hne : solve values s.target ≠ [] := fun hnil => hsome (by rw [hnil]; rfl)
    rw [s.lines_listing hne]
    refine ⟨rfl, fun solution hsolution => ?_⟩
    obtain ⟨e, he, rfl⟩ := List.mem_map.1 hsolution
    exact execute_check (Command.readable_of_parse hparse).2 he
  · intro hreachable hand hhand
    have hanswered : hand.answers = solve hand.values hand.target :=
      hreachable.answered_currentHand hhand
    refine ⟨⟨_, _, execute_show hhand⟩, fun hne => ?_⟩
    rw [hanswered] at hne ⊢
    rw [s.lines_listing hne]
    refine ⟨rfl, fun solution hsolution => ?_⟩
    obtain ⟨e, he, rfl⟩ := List.mem_map.1 hsolution
    rw [isSome_game hhand]
    refine ⟨Command.parse_of_termText (termText_of_mem_solve he s.glyphs), ?_⟩
    exact ⟨_, _, execute_answer hhand hanswered (hanswered ▸ he)⟩

/-- A session with the target 3 in which the first hand is 1, 2. -/
def onePlusTwo : Session :=
  .start .unicode ⟨2, false, false⟩ 3 ⟨[0, 4]⟩

theorem typed_back_one_two :
    Command.parse "1 2" onePlusTwo.game.isSome = .ok (some (.solve [1, 2])) ∧
      onePlusTwo.execute "check 1 2 : 1 + 2" = (.ok (.text "Good job!"), onePlusTwo) ∧
      ∃ s hand, s = ((onePlusTwo.execute "play").2.execute "target 7").2 ∧
        s.Reachable ∧ s.target = 7 ∧ s.currentHand = some hand ∧
        hand.values = [1, 2] ∧ hand.target = 3 ∧
        ∃ rest after, s.execute "1 + 2" =
          (.ok (.text ("Good job!" ++ "\n\n" ++ rest)), after) := by
  have hparse : Command.parse "1 2" onePlusTwo.game.isSome = .ok (some (.solve [1, 2])) :=
    rfl
  have hsolve : solve [1, 2] 3 =
      [.compound .additive [⟨false, .number 1⟩, ⟨false, .number 2⟩]] := by
    rw [solve_eq_plainSolve_self (by decide)]
    decide +kernel
  have hlisting : onePlusTwo.listing (solve [1, 2] 3) = "1 + 2" := by
    rw [hsolve]
    decide +kernel
  have hline : "1 + 2" ∈ lines "1 + 2" := by decide +kernel
  refine ⟨hparse, ?_, ?_⟩
  · obtain ⟨text, hexecute, hchecks⟩ := (typed_back onePlusTwo).1 "1 2" [1, 2] hparse
    have htext : text = "1 + 2" := by
      have hreply := hexecute.symm.trans (execute_solve hparse)
      rw [Prod.mk.injEq, Except.ok.injEq, Reply.text.injEq] at hreply
      exact hreply.1.trans hlisting
    rw [htext] at hchecks
    exact (hchecks (by decide)).2 "1 + 2" hline
  · obtain ⟨s, hs⟩ : ∃ s, s = ((onePlusTwo.execute "play").2.execute "target 7").2 := ⟨_, rfl⟩
    have hreachable : s.Reachable := by
      rw [hs]
      exact .execute _ (.execute _ (.start _ _ _ _))
    have hhand : s.currentHand = some
        (.ofCards [⟨1, .spades⟩, ⟨2, .spades⟩] false 3) := by
      rw [hs]
      rfl
    have hshown : s.listing (solve [1, 2] 3) = "1 + 2" := by
      rw [hs]
      exact hlisting
    have hne : solve [1, 2] 3 ≠ [] := by
      rw [hsolve]
      exact List.cons_ne_nil _ _
    have hmem : "1 + 2" ∈ lines (s.listing (solve [1, 2] 3)) := by
      rw [hshown]
      exact hline
    obtain ⟨-, hanswers⟩ := (typed_back s).2 hreachable _ hhand
    obtain ⟨-, hreply⟩ := (hanswers hne).2 "1 + 2" hmem
    refine ⟨s, _, hs, hreachable, ?_, hhand, rfl, rfl, hreply⟩
    rw [hs]
    rfl

end Session

end TwentyFour
