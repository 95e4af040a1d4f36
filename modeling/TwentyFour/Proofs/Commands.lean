import Mathlib.Data.List.TakeDrop
import TwentyFour.Command
import TwentyFour.Proofs.RoundTrip
import TwentyFour.Proofs.Words

/-!
# Reading commands

What a line is read as, for the lines that solutions are typed on: a line of its
own during a game, or the line of a `check`.

* `TermText` is the shape of the text of an expression, and `termText_render`
  says that every printed solution has it.  Its first character keeps it from
  being a keyword (`Keyword.ofWord?_eq_none`), so that `Command.parse_of_termText`
  takes it for an answer.
* `Command.naturals_of_texts` reads numbers back from their texts, and
  `Command.parse_check` finds the numbers and the solution in a whole line.
* `Command.readable_of_parse` says what is known of a command that was read, with
  one lemma for each function that reads a part of the line.
-/

namespace TwentyFour

/-! ## The text of an expression -/

/-- Characters on one line that start with a digit or an opening parenthesis. -/
structure TermText (cs : List Char) : Prop extends OneLine cs where
  starts : ∀ c ∈ cs.head?, c.isDigit = true ∨ c = '('

namespace TermText

theorem append {cs ds : List Char} (hcs : TermText cs) (hds : Unbroken ds) :
    TermText (cs ++ ds) := by
  obtain ⟨c, cs, rfl⟩ := List.exists_cons_of_ne_nil hcs.ne_nil
  exact ⟨⟨by simp, hcs.unbroken.append hds⟩, hcs.starts⟩

theorem paren {cs : List Char} (h : TermText cs) : TermText ('(' :: (cs ++ [')'])) := by
  have hinside : Unbroken (['('] ++ (cs ++ [')'])) :=
    Unbroken.append (by decide) (h.unbroken.append (by decide))
  refine ⟨⟨by simp, hinside⟩, fun c hc => .inr ?_⟩
  exact (Option.some.inj hc).symm

theorem toDigits (n : Nat) : TermText (Nat.toDigits 10 n) := by
  have hdigit : ∀ c ∈ Nat.toDigits 10 n, c.isDigit = true := fun c hc =>
    Nat.isDigit_of_mem_toDigits (by omega) (by omega) hc
  refine ⟨⟨Nat.toDigits_ne_nil, fun h => ?_, fun h => ?_⟩, fun c hc => .inl ?_⟩
  · exact absurd (hdigit _ h) (by decide)
  · exact absurd (hdigit _ h) (by decide)
  · exact hdigit c (List.mem_of_mem_head? hc)

end TermText

namespace Expr

theorem termText_enclose {text : String} (h : TermText text.toList) (cls : OpClass)
    (e : Expr) : TermText (enclose cls e text).toList := by
  rw [enclose]
  split
  · simpa [String.toList_append] using h.paren
  · exact h

theorem unbroken_renderOperands {glyphs : Glyphs} {cls : OpClass}
    {ops : List (Operand Expr)}
    (h : ∀ o ∈ ops, TermText (enclose cls o.expr (o.expr.render glyphs)).toList) :
    Unbroken (renderOperands glyphs cls false ops).toList := by
  induction ops with
  | nil =>
    rw [renderOperands]
    decide
  | cons o rest ih =>
    have hsign : Unbroken (" " ++ glyphs.operator cls o.reverse ++ " ").toList := by
      cases glyphs <;> cases cls <;> cases o.reverse <;> decide
    have hitem := (h o List.mem_cons_self).unbroken
    have hrest := ih fun p hp => h p (List.mem_cons_of_mem o hp)
    rw [renderOperands, if_neg (by simp), String.toList_append, String.toList_append]
    exact (hsign.append hitem).append hrest

/-- The text of a canonical expression over natural numbers is on one line, and starts
with a digit or an opening parenthesis. -/
theorem termText_render {e : Expr} (he : e.Canonical) (glyphs : Glyphs)
    (hnatural : ∀ v ∈ e.numbers, ∃ n : Nat, v = n) :
    TermText (e.render glyphs).toList := by
  induction he with
  | number v =>
    obtain ⟨n, rfl⟩ := hnatural v (by simp [numbers])
    rw [toList_render_natural]
    exact TermText.toDigits n
  | @compound cls ops hops hsub ih =>
    have hitem : ∀ o ∈ ops,
        TermText (enclose cls o.expr (o.expr.render glyphs)).toList := by
      intro o ho
      refine termText_enclose (ih o ho fun v hv => hnatural v ?_) cls o.expr
      rw [numbers, operandNumbers_eq_flatMap]
      exact List.mem_flatMap.2 ⟨o.expr, List.mem_map_of_mem ho, hv⟩
    rcases ops with _ | ⟨o, rest⟩
    · exact absurd hops.two_le (by simp)
    have hfirst := hitem o List.mem_cons_self
    have hrest : Unbroken (renderOperands glyphs cls false rest).toList :=
      unbroken_renderOperands fun p hp => hitem p (List.mem_cons_of_mem o hp)
    rw [render, renderOperands, if_pos rfl, String.toList_append, String.toList_append]
    exact hfirst.append hrest

end Expr

/-! ## Keywords -/

theorem Keyword.ofWord?_eq_none {word : String} {c : Char}
    (hhead : word.toList.head? = some c) (hc : c.isDigit = true ∨ c = '(') :
    Keyword.ofWord? word = none := by
  unfold ofWord?
  split <;> first | rfl | skip
  -- What is left are the keywords, which start with a letter or a question mark.
  all_goals
    have hletter := Option.some.inj hhead
    subst hletter
    exact absurd hc (by decide)

theorem isBlank_eq_false {c : Char} (h : c.isDigit = true ∨ c = '(') :
    isBlank c = false := by
  rcases h with h | rfl
  · simp only [Char.isDigit, Bool.and_eq_true, decide_eq_true_eq] at h
    have hlow : 48 ≤ c.toNat := h.1
    have hhigh : c.toNat ≤ 57 := h.2
    simp only [isBlank]
    grind
  · rfl

namespace Command

/-- During a game, a line of that shape is an answer. -/
theorem parse_of_termText {line : String} (h : TermText line.toList) :
    parse line true = .ok (some (.answer line 0)) := by
  obtain ⟨c, cs, hline⟩ := List.exists_cons_of_ne_nil h.ne_nil
  have hc : c.isDigit = true ∨ c = '(' := h.starts c (by rw [hline]; rfl)
  obtain ⟨first, others, hwords, hhead⟩ :=
    exists_words_cons (isBlank_eq_false hc) cs 0
  have hkeyword := Keyword.ofWord?_eq_none hhead hc
  rw [parse, hline, hwords]
  simp [readWords, hkeyword, readOther]

/-! ## Numbers -/

/-- Numbers that fit are read back from their texts. -/
theorem naturals_of_texts {ws : List Word} {values : List Nat}
    (htexts : ws.map (·.text) = values.map Nat.repr)
    (hfit : ∀ v ∈ values, v < naturalLimit) : naturals ws = .ok values := by
  induction values generalizing ws with
  | nil =>
    rw [List.map_nil, List.map_eq_nil_iff] at htexts
    rw [htexts]
    rfl
  | cons v values ih =>
    obtain ⟨w, ws, rfl, hw, hws⟩ := List.map_eq_cons_iff.1 htexts
    have hrest := ih hws fun u hu => hfit u (List.mem_cons_of_mem v hu)
    rw [naturals, hw, natural?_repr (hfit v List.mem_cons_self), hrest]

/-- There are as many numbers as words, and each of them fits. -/
theorem naturals_eq_ok {ws : List Word} {values : List Nat}
    (h : naturals ws = .ok values) :
    values.length = ws.length ∧ ∀ v ∈ values, v < naturalLimit := by
  induction ws generalizing values with
  | nil =>
    obtain rfl : [] = values := by simpa [naturals] using h
    simp
  | cons w ws ih =>
    rw [naturals] at h
    split at h
    next => simp at h
    next n hn =>
      split at h
      next => simp at h
      next rest hrest =>
        obtain rfl : n :: rest = values := by simpa using h
        obtain ⟨hlength, hfit⟩ := ih hrest
        have hlt : n < naturalLimit := by
          rw [natural?, Option.filter_eq_some_iff] at hn
          simpa using hn.2
        refine ⟨by simp [hlength], fun v hv => ?_⟩
        rcases List.mem_cons.1 hv with rfl | hv
        · exact hlt
        · exact hfit v hv

/-- Numbers that a command can have: one at least, and each of them fits. -/
def Numbers (values : List Nat) : Prop :=
  values ≠ [] ∧ ∀ v ∈ values, v < naturalLimit

theorem numbers_of_naturals {first : Word} {others : List Word} {values : List Nat}
    (h : naturals (first :: others) = .ok values) : Numbers values := by
  obtain ⟨hlength, hfit⟩ := naturals_eq_ok h
  refine ⟨List.ne_nil_of_length_pos ?_, hfit⟩
  rw [hlength]
  exact Nat.succ_pos _

theorem numbers_of_hand {name : String} {first : Word} {ws : List Word}
    {values : List Nat} (h : hand name first ws = .ok values) : Numbers values := by
  rw [hand] at h
  split at h
  next => simp at h
  next => simp at h
  next read hne hread =>
    obtain rfl : read = values := by simpa using h
    exact ⟨hne, (naturals_eq_ok hread).2⟩

/-! ## What is read -/

/-- What is known of a command that was read from a line. -/
def Readable (line : String) (playing : Bool) : Command → Prop
  | .solve values => playing = false ∧ Numbers values
  | .hint values => Numbers values
  | .check values _ _ => Numbers values
  | .answer solution offset => playing = true ∧ solution = line ∧ offset = 0
  | .next | .noSolutions | .reveal | .hintHand | .stop => playing = true
  | .target _ | .play | .help | .quit => True

theorem readable_of_readCheck {line : String} {playing : Bool} {first : Word}
    {command : Command} (h : readCheck line first = .ok command) :
    Readable line playing command := by
  simp only [readCheck] at h
  split at h
  next => simp at h
  next numbers _ solution _ =>
    split at h
    next => simp at h
    next values hvalues =>
      obtain rfl := Except.ok.inj h
      exact numbers_of_hand hvalues

theorem readable_of_readTarget {line : String} {playing : Bool} {first : Word}
    {numbers : List Word} {command : Command}
    (h : readTarget first numbers = .ok command) : Readable line playing command := by
  unfold readTarget at h
  split at h
  next => simp at h
  next word =>
    split at h
    next => simp at h
    next =>
      obtain rfl := Except.ok.inj h
      trivial
  next => simp at h

theorem readable_of_readOther {line : String} {playing : Bool} {first : Word}
    {others : List Word} {command : Command}
    (h : readOther line playing first others = .ok command) :
    Readable line playing command := by
  unfold readOther at h
  split at h
  next hplaying =>
    obtain rfl := Except.ok.inj h
    exact ⟨hplaying, rfl, rfl⟩
  next hplaying =>
    split at h
    · split at h
      next => simp at h
      next values hvalues =>
        obtain rfl := Except.ok.inj h
        exact ⟨by simpa using hplaying, numbers_of_naturals hvalues⟩
    · simp at h

theorem readable_of_duringGame {line : String} {playing : Bool} {first : Word}
    {command read : Command} (h : duringGame playing first command = .ok read)
    (hcommand : playing = true → Readable line playing command) :
    Readable line playing read := by
  rw [duringGame] at h
  split at h
  next hplaying =>
    obtain rfl := Except.ok.inj h
    exact hcommand hplaying
  next => simp at h

theorem readable_of_readWords {line : String} {playing : Bool} {first : Word}
    {others : List Word} {command : Command}
    (h : readWords line playing first others = .ok command) :
    Readable line playing command := by
  unfold readWords at h
  split at h
  case h_4 | h_5 | h_6 | h_7 => exact readable_of_duringGame h fun hplaying => hplaying
  case h_8 =>
    split at h
    next hplaying =>
      obtain rfl := Except.ok.inj h
      simp only [Bool.and_eq_true] at hplaying
      exact hplaying.1
    next =>
      split at h
      next => simp at h
      next values hvalues =>
        obtain rfl := Except.ok.inj h
        exact numbers_of_hand hvalues
  case h_9 => exact readable_of_readCheck h
  case h_10 => exact readable_of_readTarget h
  case h_11 => exact readable_of_readOther h
  all_goals
    obtain rfl := Except.ok.inj h
    trivial

theorem readable_of_parse {line : String} {playing : Bool} {command : Command}
    (h : parse line playing = .ok (some command)) : Readable line playing command := by
  rw [parse] at h
  split at h
  next => simp at h
  next first others hwords =>
    split at h
    next => simp at h
    next read hread =>
      obtain rfl : read = command := by simpa using h
      exact readable_of_readWords hread

/-! ## The line of a check -/

theorem oneWord_toDigits (n : Nat) : OneWord (Nat.toDigits 10 n) := by
  refine ⟨Nat.toDigits_ne_nil, fun c hc => isBlank_eq_false (.inl ?_)⟩
  exact Nat.isDigit_of_mem_toDigits (by omega) (by omega) hc

/-- Numbers with blanks between them, as a row of words. -/
theorem toList_naturalsText {values : List Nat} (hne : values ≠ []) :
    ' ' :: (naturalsText " " values).toList =
      (values.map (Nat.toDigits 10)).flatMap (' ' :: ·) := by
  have hblank : (" " : String).toList = [' '] := rfl
  rw [naturalsText]
  induction values with
  | nil => exact absurd rfl hne
  | cons v values ih =>
    cases values with
    | nil => simp [Nat.toList_repr]
    | cons w values =>
      have hrest := ih (by simp)
      rw [List.map_cons, List.map_cons, String.intercalate_cons_cons]
      rw [List.map_cons] at hrest
      simp only [String.toList_append, hblank, Nat.toList_repr, List.append_assoc,
        List.singleton_append, hrest]
      rfl

theorem span_colon {cs : List Char} (h : ':' ∉ cs) (ds : List Char) :
    (cs ++ ':' :: ds).span (· ≠ ':') = (cs, ':' :: ds) := by
  have hcs : ∀ c ∈ cs, decide (c ≠ ':') = true := fun c hc =>
    decide_eq_true fun heq => h (heq ▸ hc)
  rw [List.span_eq_takeWhile_dropWhile, List.takeWhile_append_of_pos hcs,
    List.dropWhile_append_of_pos hcs]
  simp

theorem hand_of_naturals {ws : List Word} {values : List Nat} (hne : values ≠ [])
    (h : naturals ws = .ok values) (name : String) (first : Word) :
    hand name first ws = .ok values := by
  obtain ⟨v, values, rfl⟩ := List.exists_cons_of_ne_nil hne
  rw [hand, h]

/-- The numbers are found in front of the colon, and the solution behind it. -/
theorem readCheck_of_numbers {values : List Nat} (hvalues : Numbers values)
    (line : String) (first : Word) (solution : String)
    (hrest : dropBytes first.span.stop line.toList =
      ' ' :: (naturalsText " " values).toList ++ ' ' :: ':' :: solution.toList) :
    ∃ offset, readCheck line first = .ok (.check values solution offset) := by
  have hdigits : ∀ w ∈ values.map (Nat.toDigits 10), OneWord w := by
    simp only [List.forall_mem_map]
    exact fun v _ => oneWord_toDigits v
  have hcolon : ':' ∉ (values.map (Nat.toDigits 10)).flatMap (' ' :: ·) ++ [' '] := by
    simp only [List.mem_append, List.mem_flatMap, List.mem_map, not_or]
    refine ⟨?_, by decide⟩
    rintro ⟨w, ⟨v, -, rfl⟩, hmem⟩
    rcases List.mem_cons.1 hmem with hmem | hmem
    · exact absurd hmem (by decide)
    · have hdigit := Nat.isDigit_of_mem_toDigits (by omega) (by omega) hmem
      exact absurd hdigit (by decide)
  have hspan := span_colon hcolon solution.toList
  rw [← toList_naturalsText hvalues.1, List.append_assoc, List.singleton_append] at hspan
  have htexts := words_join hdigits first.span.stop
  rw [← toList_naturalsText hvalues.1, List.map_map] at htexts
  have hhand := hand_of_naturals hvalues.1 (naturals_of_texts htexts hvalues.2) "check"
    first
  simp only [readCheck, hrest, hspan, hhand, String.ofList_toList]
  exact ⟨_, rfl⟩

/-- Numbers and a solution that are put together as the line of a check are found
there. -/
theorem parse_check {values : List Nat} (hvalues : Numbers values) (solution : String)
    (playing : Bool) :
    ∃ offset, parse ("check " ++ naturalsText " " values ++ " : " ++ solution) playing =
      .ok (some (.check values (" " ++ solution) offset)) := by
  obtain ⟨line, hname⟩ :
      ∃ line, line = "check " ++ naturalsText " " values ++ " : " ++ solution := ⟨_, rfl⟩
  obtain ⟨rest, hrest⟩ : ∃ rest, rest =
      ' ' :: (naturalsText " " values).toList ++ ' ' :: ':' :: (" " ++ solution).toList :=
    ⟨_, rfl⟩
  have hline : line.toList = "check".toList ++ rest := by
    simp [hname, hrest, String.toList_append]
  have hends : EndsWord rest := hrest ▸ endsWord_cons rfl _
  have hword : OneWord "check".toList := ⟨by simp, by simp [isBlank]⟩
  have hwords := words_append hword hends 0
  rw [String.ofList_toList, ← hline, Nat.zero_add] at hwords
  obtain ⟨offset, hcheck⟩ := readCheck_of_numbers hvalues line
    ⟨"check", 0, byteLength "check".toList⟩ (" " ++ solution)
    (by rw [hline, dropBytes_append, hrest])
  have hkeyword : Keyword.ofWord? "check" = some .check := rfl
  refine ⟨offset, ?_⟩
  rw [← hname, parse, hwords]
  simp only [readWords, hkeyword, hcheck]

end Command

end TwentyFour
