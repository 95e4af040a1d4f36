import TwentyFour.Proofs.Commands
import TwentyFour.Proofs.ZeroDivisors
import TwentyFour.Session

/-!
# What errors point at

Every error has one span, which covers whole characters of the text, and they are what
the error is about.

* `PointsAt` says for every cause which characters these are, and `Pinpointed` that an
  error points at them.
* `inSolution_of_parse` is about the errors of reading a solution.  `InSolution.shift`
  carries it over to a line that ends with the solution.
* `pinpointed_of_word` is about an error at a word of a line.  The errors of reading a
  command are put together from it, with one lemma for each function that reads a part
  of the line.
* `pinpointed_of_parse_and_execute` is the result for all texts and lines.
-/

namespace TwentyFour

/-! ## What an error points at -/

/-- The text that an error about a solution quotes. -/
def Cause.remainder? : Cause → Option String
  | .invalidCharacter _ remainder | .missingOperand remainder | .missingOperator remainder
  | .unclosedParenthesis _ remainder | .emptyParenthesis remainder
  | .divisionByZero remainder => some remainder
  | _ => none

/-- The word is the first of a row of words that is not a natural number. -/
structure FirstBad (numbers : List (List Char)) (word : List Char) : Prop where
  good : ∀ w ∈ numbers, (natural? (String.ofList w)).isSome
  bad : natural? (String.ofList word) = none

/-- The characters are the first word of a line that should be a number and is none.  A
line of numbers alone is one that starts with an integer. -/
inductive BadNumberAt (before inside after : List Char) : Prop where
  | hand {numbers : List (List Char)} (hat : WordAt numbers before inside after)
      (hbad : FirstBad numbers inside)
      (hfirst : ∀ w ∈ (numbers ++ [inside]).head?, (integer? (String.ofList w)).isSome)
  | hint {numbers : List (List Char)}
      (hat : WordAt ("hint".toList :: numbers) before inside after)
      (hbad : FirstBad numbers inside)
  | check {numbers : List (List Char)} {between solution : List Char}
      (hat : WordAt ("check".toList :: numbers) before inside between)
      (hafter : after = between ++ ':' :: solution)
      (hcolon : ':' ∉ before ++ inside ++ between)
      (hbad : FirstBad numbers inside)
  | target (hat : WordAt ["target".toList] before inside after)
      (hbad : integer? (String.ofList inside) = none)

/-- The characters `inside` of a text are what an error with the cause is about. -/
inductive PointsAt (before inside after : List Char) : Cause → Prop where
  | solution {cause : Cause}
      (hremainder : cause.remainder? = some (String.ofList (inside ++ after)))
      (hcharacter : ∀ c remainder, cause = .invalidCharacter c remainder → inside = [c]) :
      PointsAt before inside after cause
  | unknownCommand (hat : WordAt [] before inside after) :
      PointsAt before inside after (.unknownCommand (String.ofList inside))
  | notPlaying (hat : WordAt [] before inside after) :
      PointsAt before inside after (.notPlaying (String.ofList inside))
  | missingNumbers (hat : WordAt [] before inside after) :
      PointsAt before inside after (.missingNumbers (String.ofList inside))
  | invalidInteger (hat : BadNumberAt before inside after) :
      PointsAt before inside after (.invalidInteger (String.ofList inside))
  | extraArguments {command argument : List Char}
      (hat : WordAt [command, argument] before inside after) :
      PointsAt before inside after (.extraArguments (String.ofList command))
  | missingSeparator {rest : List Char} (hat : WordAt [] before "check".toList (rest ++ after))
      (hinside : inside = "check".toList ++ rest)
      (hlast : ∀ c ∈ inside.getLast?, isBlank c = false)
      (hafter : ∀ c ∈ after, isBlank c = true) (hcolon : ':' ∉ inside) :
      PointsAt before inside after .missingSeparator

/-- The error has one span.  It lies between characters of the text, and covers those that
the error is about. -/
def Pinpointed (source : String) (e : Error) : Prop :=
  ∃ span before inside after, e.spans = [span] ∧ Covers source span before inside after ∧
    PointsAt before inside after e.cause ∧
    span.start ≤ span.stop ∧ span.stop ≤ byteLength source.toList ∧
    charOffset source span.start = before.length ∧
    charOffset source span.stop = (before ++ inside).length

theorem Covers.pinpointed {source : String} {span : Span} {before inside after : List Char}
    {e : Error} (h : Covers source span before inside after) (hspans : e.spans = [span])
    (hpoints : PointsAt before inside after e.cause) : Pinpointed source e :=
  ⟨span, before, inside, after, hspans, h, hpoints, h.bounds.1, h.bounds.2,
    h.charOffsets.1, h.charOffsets.2⟩

/-! ## Solutions -/

/-- The error is about a solution that the text ends with. -/
def InSolution (source : String) (e : Error) : Prop :=
  ∃ span before inside after, e.spans = [span] ∧ Covers source span before inside after ∧
    e.cause.remainder? = some (String.ofList (inside ++ after)) ∧
    ∀ c remainder, e.cause = .invalidCharacter c remainder → inside = [c]

theorem InSolution.pinpointed {source : String} {e : Error} (h : InSolution source e) :
    Pinpointed source e := by
  obtain ⟨span, before, inside, after, hspans, hcovers, hremainder, hcharacter⟩ := h
  exact hcovers.pinpointed hspans (.solution hremainder hcharacter)

theorem InSolution.shift {line source : String} {front : List Char} {e : Error}
    (h : InSolution source e) (hline : line.toList = front ++ source.toList) :
    InSolution line (e.shift (byteLength front)) := by
  obtain ⟨span, before, inside, after, hspans, hcovers, hremainder, hcharacter⟩ := h
  refine ⟨_, _, inside, after, ?_, hcovers.shift hline, hremainder, hcharacter⟩
  rw [Error.shift, hspans]
  rfl

theorem Covers.inSolution {source : String} {span : Span} {before inside after : List Char}
    {cause : Cause} (h : Covers source span before inside after)
    (hremainder : cause.remainder? = some (suffixFrom source span.start))
    (hcharacter : ∀ c remainder, cause = .invalidCharacter c remainder → inside = [c]) :
    InSolution source (.about span cause) := by
  rw [h.suffixFrom_start] at hremainder
  exact ⟨span, before, inside, after, rfl, h, hremainder, hcharacter⟩

theorem mem_of_mem_stillOpen {ts : List Token} {tok : Token} (h : tok ∈ stillOpen ts) :
    tok ∈ ts := by
  induction ts using List.reverseRecOn with
  | nil => simp [stillOpen] at h
  | append_singleton ts last ih =>
    rw [stillOpen_snoc] at h
    split at h
    · rcases List.mem_cons.1 h with rfl | hmem
      · simp
      · exact List.mem_append_left _ (ih hmem)
    · exact List.mem_append_left _ (ih (List.mem_of_mem_tail h))
    · exact List.mem_append_left _ (ih h)

/-- Every row of the table of syntax errors points at its token, or at the end. -/
theorem Reported.inSolution {text : String} {front rest : List Token} {e : Error}
    (h : Reported text front rest e) (hvisible : visibleTokens text = front ++ rest) :
    InSolution text e := by
  cases h with
  | @invalidCharacter tok rest hkind =>
    obtain ⟨xs, ys, htokens, -, -, hcovers⟩ := covers_of_visibleToken hvisible
    obtain ⟨c, hc, -⟩ := exists_char_of_mem_tokens (by simp [htokens] : tok ∈ tokens text)
      (by simp [hkind, Kind.isRun])
    refine hcovers.inSolution rfl fun d remainder heq => ?_
    obtain ⟨rfl, -⟩ := Cause.invalidCharacter.inj heq
    simp [TokenStream.firstChar, hc]
  | missingOperator | missingOperand | unopened | unfinished =>
    obtain ⟨xs, ys, -, -, -, hcovers⟩ := covers_of_visibleToken hvisible
    exact hcovers.inSolution rfl (by simp)
  | @emptyParenthesis opening tok rest _ hlast _ =>
    obtain ⟨front, rfl⟩ := List.getLast?_eq_some_iff.1 hlast
    have hsplit : visibleTokens text = front ++ [opening, tok] ++ rest := by simp [hvisible]
    obtain ⟨xs, ys, zs, -, -, -, -, hcovers⟩ := covers_of_visibleTokens (by simp) hsplit
    exact hcovers.inSolution rfl (by simp)
  | unclosed _ _ hopen =>
    obtain ⟨front, behind, rfl⟩ := List.append_of_mem
      (mem_of_mem_stillOpen (List.mem_of_mem_head? hopen))
    rw [List.append_nil] at hvisible
    obtain ⟨xs, ys, -, -, -, hcovers⟩ := covers_of_visibleToken hvisible
    exact hcovers.inSolution rfl (by simp)
  | ended _ =>
    refine ⟨_, text.toList, [], [], rfl, ⟨by simp, rfl, by simp⟩, rfl, by simp [Error.about]⟩

/-- An error of reading a solution points into it. -/
theorem inSolution_of_parse {text : String} {e : Error} (h : Expr.parse text = .error e) :
    InSolution text e := by
  rcases Parser.stops_of_full h with hblamed | ⟨hother, -⟩
  · obtain ⟨sign, operand, rest, t, hcleared, -, ht, -, rfl⟩ := hblamed
    obtain ⟨front, xs, ys, zs, -, -, -, -, hcovers⟩ := hcleared.covers ht
    exact hcovers.inSolution rfl (by simp)
  · rcases Parser.failed_of_full h with ⟨remainder, hzero⟩ | hmisplaced
    · exact absurd hzero (hother remainder)
    · obtain ⟨front, rest, hvisible, -, hreported⟩ := hmisplaced
      exact hreported.inSolution hvisible

/-! ## Words of a line -/

/-- The texts of words, as characters. -/
def spelled (ws : List Word) : List (List Char) :=
  ws.map fun w => w.text.toList

theorem covers_of_words {line : String} (front : List Word) {rest : List Word} {w : Word}
    (h : words 0 line.toList = front ++ w :: rest) :
    ∃ before inside after, Covers line w.span before inside after ∧
      WordAt (spelled front) before inside after ∧ w.text = String.ofList inside := by
  obtain ⟨before, inside, after, hline, hat, rfl⟩ := exists_of_words h
  exact ⟨before, inside, after, ⟨hline, Nat.zero_add _, Nat.zero_add _⟩, hat, rfl⟩

/-- An error at a word points at this word. -/
theorem pinpointed_of_word {line : String} (front : List Word) {rest : List Word} {w : Word}
    {cause : Cause} (h : words 0 line.toList = front ++ w :: rest)
    (hpoints : ∀ before inside after, WordAt (spelled front) before inside after →
      w.text = String.ofList inside → PointsAt before inside after cause) :
    Pinpointed line (.about w.span cause) := by
  obtain ⟨before, inside, after, hcovers, hat, htext⟩ := covers_of_words front h
  exact hcovers.pinpointed rfl (hpoints before inside after hat htext)

namespace Command

/-- Reading numbers fails at the first word that is none. -/
theorem naturals_eq_error {ws : List Word} {e : Error} (h : naturals ws = .error e) :
    ∃ front w rest, ws = front ++ w :: rest ∧ e = notInteger w ∧
      FirstBad (spelled front) w.text.toList := by
  induction ws with
  | nil => simp [naturals] at h
  | cons v ws ih =>
    rw [naturals] at h
    split at h
    next hbad =>
      obtain rfl := Except.error.inj h
      exact ⟨[], v, ws, rfl, rfl, by simp [spelled], by rw [String.ofList_toList, hbad]⟩
    next n hn =>
      split at h
      next e' he' =>
        obtain rfl := Except.error.inj h
        obtain ⟨front, w, rest, rfl, he, hgood, hbad⟩ := ih he'
        refine ⟨v :: front, w, rest, rfl, he, ?_, hbad⟩
        refine List.forall_mem_cons.2 ⟨?_, hgood⟩
        rw [String.ofList_toList, hn]
        rfl
      next => simp at h

theorem hand_eq_error {name : String} {first : Word} {numbers : List Word} {e : Error}
    (h : hand name first numbers = .error e) :
    naturals numbers = .error e ∨ e = .about first.span (.missingNumbers name) := by
  rw [hand] at h
  split at h
  next e' he' => exact .inl (he'.trans h)
  next => exact .inr (Except.error.inj h).symm
  next => simp at h

/-- The words that start a command with numbers. -/
theorem word_of_keyword {word : String} :
    (Keyword.ofWord? word = some .hint → word = "hint") ∧
      (Keyword.ofWord? word = some .check → word = "check") ∧
      (Keyword.ofWord? word = some .target → word = "target") := by
  unfold Keyword.ofWord?
  split <;> simp

section Lines

variable {line : String} {playing : Bool} {first : Word} {others : List Word} {e : Error}

/-- A number of a row behind other words of a line is read where it stands. -/
theorem pinpointed_of_naturals (front : List Word) {ws : List Word}
    (hwords : words 0 line.toList = front ++ ws) (h : naturals ws = .error e)
    (hpoints : ∀ numbers before inside after,
      WordAt (spelled front ++ numbers) before inside after → FirstBad numbers inside →
        (numbers ++ [inside]).head? = (spelled ws).head? → BadNumberAt before inside after) :
    Pinpointed line e := by
  obtain ⟨numbers, w, rest, rfl, rfl, hbad⟩ := naturals_eq_error h
  have hhead : (spelled numbers ++ [w.text.toList]).head? =
      (spelled (numbers ++ w :: rest)).head? := by
    cases numbers <;> rfl
  rw [← List.append_assoc] at hwords
  refine pinpointed_of_word _ hwords fun before inside after hat htext => ?_
  rw [htext] at hbad hhead ⊢
  rw [String.toList_ofList] at hbad hhead
  rw [spelled, List.map_append] at hat
  exact .invalidInteger (hpoints _ _ _ _ hat hbad hhead)

theorem pinpointed_of_missingNumbers {name : String}
    (hwords : words 0 line.toList = first :: others) (hname : first.text = name) :
    Pinpointed line (.about first.span (.missingNumbers name)) := by
  refine pinpointed_of_word [] hwords fun before inside after hat htext => ?_
  rw [← hname, htext]
  exact .missingNumbers hat

theorem pinpointed_of_readTarget
    (hwords : words 0 line.toList = first :: others) (hname : first.text = "target")
    (h : readTarget first others = .error e) : Pinpointed line e := by
  unfold readTarget at h
  split at h
  next =>
    obtain rfl := Except.error.inj h
    exact pinpointed_of_missingNumbers hwords hname
  next word =>
    split at h
    next hbad =>
      obtain rfl := Except.error.inj h
      refine pinpointed_of_word [first] hwords fun before inside after hat htext => ?_
      rw [htext] at hbad ⊢
      rw [spelled, List.map_singleton, hname] at hat
      exact .invalidInteger (.target hat hbad)
    next => simp at h
  next argument extra rest =>
    obtain rfl := Except.error.inj h
    refine pinpointed_of_word [first, argument] hwords
      fun before inside after hat htext => ?_
    rw [spelled, List.map_cons, hname] at hat
    exact .extraArguments hat

theorem pinpointed_of_readOther (hwords : words 0 line.toList = first :: others)
    (h : readOther line playing first others = .error e) : Pinpointed line e := by
  unfold readOther at h
  split at h
  next => simp at h
  next =>
    split at h
    next hfirst =>
      split at h
      next e' he' =>
        obtain rfl := Except.error.inj h
        refine pinpointed_of_naturals [] hwords he'
          fun numbers before inside after hat hbad hhead => .hand hat hbad fun w hw => ?_
        obtain rfl : first.text.toList = w := Option.some.inj (hhead.symm.trans hw)
        rwa [String.ofList_toList]
      next => simp at h
    next =>
      obtain rfl := Except.error.inj h
      refine pinpointed_of_word [] hwords fun before inside after hat htext => ?_
      rw [htext]
      exact .unknownCommand hat

theorem pinpointed_of_duringGame {command : Command}
    (hwords : words 0 line.toList = first :: others)
    (h : duringGame playing first command = .error e) : Pinpointed line e := by
  rw [duringGame] at h
  split at h
  next => simp at h
  next =>
    obtain rfl := Except.error.inj h
    refine pinpointed_of_word [] hwords fun before inside after hat htext => ?_
    rw [htext]
    exact .notPlaying hat

end Lines

/-! ## The line of a check -/

theorem span_colon_eq {cs numbers rest : List Char} (h : cs.span (· ≠ ':') = (numbers, rest)) :
    cs = numbers ++ rest ∧ ':' ∉ numbers ∧ ∀ c ∈ rest.head?, c = ':' := by
  rw [List.span_eq_takeWhile_dropWhile] at h
  obtain ⟨rfl, rfl⟩ := Prod.mk.inj h
  refine ⟨List.takeWhile_append_dropWhile.symm, fun hmem => ?_, fun c hc => ?_⟩
  · have hall := List.all_takeWhile (p := fun c : Char => decide (c ≠ ':')) (l := cs)
    simpa using List.all_eq_true.1 hall ':' hmem
  · have hnot := List.head?_dropWhile_not (fun c => decide (c ≠ ':')) cs
    rw [Option.mem_def.1 hc] at hnot
    simpa using hnot

section Check

variable {line : String} {first : Word} {others : List Word} {e : Error}

/-- Without a colon, the error reaches from the keyword to the end of the line. -/
theorem pinpointed_of_missingSeparator {before after : List Char} {span : Span}
    (hcovers : Covers line span before "check".toList after)
    (hat : WordAt [] before "check".toList after) (hcolon : ':' ∉ after) :
    Pinpointed line
      (.about ⟨span.start, byteLength (trimEnd line.toList)⟩ .missingSeparator) := by
  have hword : ∀ c ∈ (before ++ "check".toList).getLast?, isBlank c = false := by
    rw [List.getLast?_append_of_ne_nil _ hat.word.ne_nil]
    exact hat.word.not_blank_getLast?
  have htrim : trimEnd line.toList = before ++ ("check".toList ++ trimEnd after) := by
    rw [hcovers.source_eq, trimEnd_append hword, List.append_assoc]
  obtain ⟨blanks, hafter, hblanks⟩ := exists_trimEnd_append after
  have hkept : ':' ∉ trimEnd after := by
    rw [hafter] at hcolon
    exact fun hmem => hcolon (List.mem_append_left _ hmem)
  have hcovers' : Covers line ⟨span.start, byteLength (trimEnd line.toList)⟩ before
      ("check".toList ++ trimEnd after) blanks := by
    refine ⟨?_, hcovers.start_eq, by rw [htrim]⟩
    rw [hcovers.source_eq]
    simp [← hafter]
  have hat' : WordAt [] before "check".toList (trimEnd after ++ blanks) := by rwa [← hafter]
  refine hcovers'.pinpointed rfl (.missingSeparator hat' rfl ?_ hblanks ?_)
  · intro c hc
    rw [List.getLast?_append] at hc
    cases hlast : (trimEnd after).getLast? with
    | none =>
      rw [hlast, Option.none_or] at hc
      exact hat.word.not_blank_getLast? c hc
    | some d =>
      rw [hlast, Option.some_or] at hc
      exact getLast?_trimEnd after c (hlast.trans hc)
  · rw [List.mem_append, not_or]
    exact ⟨by decide, hkept⟩

theorem pinpointed_of_readCheck (hwords : words 0 line.toList = first :: others)
    (hname : first.text = "check") (h : readCheck line first = .error e) :
    Pinpointed line e := by
  obtain ⟨before, inside, after, hcovers, hat, htext⟩ := covers_of_words [] hwords
  obtain rfl : inside = "check".toList := by rw [← hname, htext, String.toList_ofList]
  have hdrop : dropBytes first.span.stop line.toList = after := by
    rw [hcovers.stop_eq, hcovers.source_eq, dropBytes_append]
  simp only [readCheck, hdrop] at h
  split at h
  next numbers hspan =>
    obtain rfl := Except.error.inj h
    obtain ⟨rfl, hcolon, -⟩ := span_colon_eq hspan
    rw [List.append_nil] at hcovers hat
    exact pinpointed_of_missingSeparator hcovers hat hcolon
  next numbers colon solution hspan =>
    obtain ⟨rfl, hcolon, hhead⟩ := span_colon_eq hspan
    obtain rfl : colon = ':' := hhead colon rfl
    split at h
    next e' he' =>
      obtain rfl := Except.error.inj h
      rcases hand_eq_error he' with hnumbers | rfl
      · -- the numbers are cut out of the line, so their words are placed behind the keyword
        obtain ⟨front, w, rest, hsplit, rfl, hbad⟩ := naturals_eq_error hnumbers
        obtain ⟨front', inside, between, rfl, hat', rfl⟩ := exists_of_words hsplit
        rw [String.toList_ofList] at hbad
        obtain ⟨hblanks⟩ := hat.lead
        have hends : EndsWord (front' ++ inside ++ (between ++ ':' :: solution)) := by
          simpa using hat.ends
        have hlead := Lead.cons hblanks hat.word hends hat'.word hat'.lead
        have hcovers' : Covers line ⟨first.span.stop + byteLength front',
            first.span.stop + byteLength (front' ++ inside)⟩
            (before ++ "check".toList ++ front') inside (between ++ ':' :: solution) := by
          refine ⟨by simp [hcovers.source_eq], ?_, ?_⟩
          · rw [hcovers.stop_eq, byteLength_append (before ++ "check".toList)]
          · rw [hcovers.stop_eq, List.append_assoc (before ++ "check".toList),
              byteLength_append (before ++ "check".toList)]
        have hnone : ':' ∉ before := fun hmem => absurd (hblanks _ hmem) (by decide)
        have hbehind : ':' ∉ before ++ "check".toList ++ front' ++ inside ++ between := by
          simp only [List.mem_append, not_or] at hcolon ⊢
          exact ⟨⟨⟨⟨hnone, by decide⟩, hcolon.1.1⟩, hcolon.1.2⟩, hcolon.2⟩
        exact hcovers'.pinpointed rfl
          (.invalidInteger (.check ⟨hlead, hat'.word, hat'.ends⟩ rfl hbehind hbad))
      · exact pinpointed_of_missingNumbers hwords hname
    next => simp at h

/-- The solution of a check is the end of its line. -/
theorem offset_of_readCheck {values : List Nat} {solution : String} {offset : Nat}
    (hwords : words 0 line.toList = first :: others)
    (h : readCheck line first = .ok (.check values solution offset)) :
    ∃ front, line.toList = front ++ solution.toList ∧ offset = byteLength front := by
  obtain ⟨before, inside, after, hcovers, -, -⟩ := covers_of_words [] hwords
  have hdrop : dropBytes first.span.stop line.toList = after := by
    rw [hcovers.stop_eq, hcovers.source_eq, dropBytes_append]
  simp only [readCheck, hdrop] at h
  split at h
  next => simp at h
  next numbers colon rest hspan =>
    obtain ⟨rfl, -, hhead⟩ := span_colon_eq hspan
    obtain rfl : colon = ':' := hhead colon rfl
    split at h
    next => simp at h
    next read hread =>
      obtain ⟨rfl, rfl, rfl⟩ := Command.check.inj (Except.ok.inj h)
      refine ⟨before ++ inside ++ numbers ++ [':'], ?_, ?_⟩
      · rw [String.toList_ofList, hcovers.source_eq]
        simp
      · rw [hcovers.stop_eq]
        simp [Nat.add_assoc]
        rfl

end Check

/-! ## Lines -/

section Lines

variable {line : String} {playing : Bool} {first : Word} {others : List Word} {e : Error}

theorem pinpointed_of_readWords (hwords : words 0 line.toList = first :: others)
    (h : readWords line playing first others = .error e) : Pinpointed line e := by
  unfold readWords at h
  split at h
  case h_4 | h_5 | h_6 | h_7 => exact pinpointed_of_duringGame hwords h
  case h_8 hkeyword =>
    split at h
    next => simp at h
    next =>
      have hname := word_of_keyword.1 hkeyword
      split at h
      next e' he' =>
        obtain rfl := Except.error.inj h
        rcases hand_eq_error he' with hnumbers | rfl
        · refine pinpointed_of_naturals [first] hwords hnumbers
            fun numbers before inside after hat hbad _ => .hint ?_ hbad
          rwa [spelled, List.map_singleton, hname] at hat
        · exact pinpointed_of_missingNumbers hwords hname
      next => simp at h
  case h_9 hkeyword =>
    exact pinpointed_of_readCheck hwords (word_of_keyword.2.1 hkeyword) h
  case h_10 hkeyword =>
    exact pinpointed_of_readTarget hwords (word_of_keyword.2.2 hkeyword) h
  case h_11 => exact pinpointed_of_readOther hwords h
  all_goals simp at h

theorem pinpointed_of_parse (h : parse line playing = .error e) : Pinpointed line e := by
  rw [parse] at h
  split at h
  next => simp at h
  next first others hwords =>
    split at h
    next e' he' =>
      obtain rfl := Except.error.inj h
      exact pinpointed_of_readWords hwords he'
    next => simp at h

theorem readCheck_of_readWords {values : List Nat} {solution : String} {offset : Nat}
    (h : readWords line playing first others = .ok (.check values solution offset)) :
    readCheck line first = .ok (.check values solution offset) := by
  unfold readWords at h
  split at h
  case h_9 => exact h
  case h_4 | h_5 | h_6 | h_7 =>
    rw [duringGame] at h
    split at h <;> simp at h
  case h_8 =>
    split at h
    · simp at h
    · split at h <;> simp at h
  case h_10 =>
    unfold readTarget at h
    split at h
    · simp at h
    · split at h <;> simp at h
    · simp at h
  case h_11 =>
    unfold readOther at h
    split at h
    · simp at h
    · split at h
      · split at h <;> simp at h
      · simp at h
  all_goals simp at h

/-- The solution in a command is the end of the line. -/
def EndsLine (line : String) : Command → Prop
  | .check _ solution offset | .answer solution offset =>
    ∃ front, line.toList = front ++ solution.toList ∧ offset = byteLength front
  | _ => True

theorem endsLine_of_parse {command : Command}
    (h : parse line playing = .ok (some command)) : EndsLine line command := by
  cases command with
  | check values solution offset =>
    rw [parse] at h
    split at h
    next => simp at h
    next first others hwords =>
      split at h
      next => simp at h
      next read hread =>
        obtain rfl := Option.some.inj (Except.ok.inj h)
        exact offset_of_readCheck hwords (readCheck_of_readWords hread)
  | answer solution offset =>
    obtain ⟨-, rfl, rfl⟩ := readable_of_parse h
    exact ⟨[], rfl, rfl⟩
  | _ => trivial

end Lines

end Command

namespace Session

variable {s after : Session} {line : String} {e : Error}

theorem pinpointed_of_perform {command : Command} (hends : command.EndsLine line)
    (h : s.perform command = (.error e, after)) : Pinpointed line e := by
  cases command <;> simp only [perform, replyText] at h
  case check values solution offset =>
    obtain ⟨front, hline, rfl⟩ := hends
    split at h
    next e' he' =>
      obtain rfl := Except.error.inj (Prod.mk.inj h).1
      rw [check] at he'
      split at he'
      next e'' hparse =>
        obtain rfl := Except.error.inj he'
        exact ((inSolution_of_parse hparse).shift hline).pinpointed
      next => split at he' <;> simp at he'
    · simp at h
  case answer solution offset =>
    obtain ⟨front, hline, rfl⟩ := hends
    split at h
    next e' hparse =>
      obtain rfl := Except.error.inj (Prod.mk.inj h).1
      exact ((inSolution_of_parse hparse).shift hline).pinpointed
    · simp at h
  all_goals simp at h

end Session

/-- Every error of reading a solution points at what it is about in the solution, and every
error of a session, in whatever state it is, points at what it is about in the line. -/
theorem pinpointed_of_parse_and_execute :
    (∀ text e, Expr.parse text = .error e → Pinpointed text e) ∧
      ∀ (s after : Session) line e, s.execute line = (.error e, after) → Pinpointed line e := by
  refine ⟨fun text e h => (inSolution_of_parse h).pinpointed, fun s after line e h => ?_⟩
  unfold Session.execute at h
  split at h
  next e' he' =>
    obtain rfl := Except.error.inj (Prod.mk.inj h).1
    exact Command.pinpointed_of_parse he'
  · simp at h
  next command hcommand =>
    exact Session.pinpointed_of_perform (Command.endsLine_of_parse hcommand) h

theorem pinpointed_of_parse_and_execute_parentheses :
    Expr.parse "2 × )" = .error (.about ⟨5, 6⟩ (.unclosedParenthesis false ")")) ∧
      Pinpointed "2 × )" (.about ⟨5, 6⟩ (.unclosedParenthesis false ")")) ∧
      (Session.start .unicode .standard 24 ⟨[]⟩).execute " check 4 4 : 4 × ( )" =
        (.error (.about ⟨18, 21⟩ (.emptyParenthesis "( )")),
          Session.start .unicode .standard 24 ⟨[]⟩) ∧
      Pinpointed " check 4 4 : 4 × ( )" (.about ⟨18, 21⟩ (.emptyParenthesis "( )")) := by
  have hparse : Expr.parse "2 × )" =
      .error (.about ⟨5, 6⟩ (.unclosedParenthesis false ")")) := by
    decide +kernel
  have hexecute : (Session.start .unicode .standard 24 ⟨[]⟩).execute " check 4 4 : 4 × ( )" =
      (.error (.about ⟨18, 21⟩ (.emptyParenthesis "( )")),
        Session.start .unicode .standard 24 ⟨[]⟩) := by
    decide +kernel
  obtain ⟨hofParse, hofExecute⟩ := pinpointed_of_parse_and_execute
  exact ⟨hparse, hofParse _ _ hparse, hexecute, hofExecute _ _ _ _ hexecute⟩

end TwentyFour
