import Mathlib.Data.List.Basic
import TwentyFour.Text.Words

/-!
# The words and lines of a text

A text that is put together from words or lines is cut into the same ones again.

* `OneWord` are the characters of one word.  `wordsFrom_append` cuts it off in
  front of more text, and `words_join` is the run over a row of words with one
  blank in front of each.
* `WordAt` says where a word stands, behind the `Lead` of the words before it.
  `exists_of_words` says so of every word that a text is cut into.
* `trimEnd_append` and its neighbours are about the blanks at the end.
* `OneLine` are the characters of one line.  `cutLines_append` cuts it off in
  front of its line feed, and `lines_intercalate` is the run over the lines of
  a text.
-/

namespace TwentyFour

/-! ## Words -/

/-- Characters without a blank among them, and at least one. -/
structure OneWord (cs : List Char) : Prop where
  ne_nil : cs ≠ []
  not_blank : ∀ c ∈ cs, isBlank c = false

theorem OneWord.not_blank_getLast? {cs : List Char} (h : OneWord cs) :
    ∀ c ∈ cs.getLast?, isBlank c = false :=
  fun c hc => h.not_blank c (List.mem_of_getLast? hc)

/-- A word that is there does not go on with these characters. -/
def EndsWord (cs : List Char) : Prop :=
  ∀ c ∈ cs.head?, isBlank c = true

theorem endsWord_cons {c : Char} (h : isBlank c = true) (cs : List Char) :
    EndsWord (c :: cs) := by
  intro c' hc'
  rw [List.head?_cons, Option.mem_some_iff] at hc'
  exact hc' ▸ h

@[simp] theorem wordsFrom_blank {c : Char} (h : isBlank c = true) (start : Nat)
    (cs : List Char) :
    wordsFrom start (c :: cs) = wordsFrom (start + c.utf8Size) cs := by
  simp [wordsFrom, h]

theorem le_of_mem_wordsFrom {start : Nat} {cs : List Char} {w : Nat × List Char}
    (h : w ∈ wordsFrom start cs) : start ≤ w.1 := by
  induction cs generalizing start w with
  | nil => simp [wordsFrom] at h
  | cons c cs ih =>
    have hrest : ∀ v ∈ wordsFrom (start + c.utf8Size) cs, start ≤ v.1 := fun v hv => by
      have hle := ih hv
      omega
    rw [wordsFrom] at h
    split_ifs at h
    · exact hrest w h
    · split at h
      next => simp_all
      next first word rest hwords =>
        split_ifs at h <;> rcases List.mem_cons.1 h with rfl | h
        · exact Nat.le_refl _
        · exact hrest w (by simp [hwords, h])
        · exact Nat.le_refl _
        · exact hrest w (by simpa [hwords] using h)

/-- After a blank, or at the end, no word starts at once. -/
theorem EndsWord.start_lt {start : Nat} {cs : List Char} (hends : EndsWord cs)
    {w : Nat × List Char} (h : w ∈ wordsFrom start cs) : start < w.1 := by
  cases cs with
  | nil => simp [wordsFrom] at h
  | cons c cs =>
    rw [wordsFrom_blank (hends c rfl)] at h
    have hle := le_of_mem_wordsFrom h
    have hpos := c.utf8Size_pos
    omega

/-- The first word is cut off where it ends. -/
theorem wordsFrom_append {w : List Char} (hw : OneWord w) {cs : List Char}
    (hends : EndsWord cs) (start : Nat) :
    wordsFrom start (w ++ cs) = (start, w) :: wordsFrom (start + byteLength w) cs := by
  obtain ⟨hne, hblank⟩ := hw
  induction w generalizing start with
  | nil => exact absurd rfl hne
  | cons c w ih =>
    have hc : isBlank c = false := hblank c List.mem_cons_self
    rw [List.cons_append, wordsFrom, hc, if_neg (by simp)]
    by_cases hlast : w = []
    · subst hlast
      have hbyte : start + byteLength [c] = start + c.utf8Size := by simp
      rw [List.nil_append, hbyte]
      split
      next hwords => rw [hwords]
      next first word rest hwords =>
        -- The next word starts later, so the last character does not run into it.
        have hlt : start + c.utf8Size < first :=
          hends.start_lt (w := (first, word)) (by rw [hwords]; exact List.mem_cons_self)
        rw [if_neg (by omega), hwords]
    · have hrest := ih (start + c.utf8Size) hlast
        fun d hd => hblank d (List.mem_cons_of_mem c hd)
      rw [hrest]
      simp [Nat.add_assoc]

theorem words_append {w : List Char} (hw : OneWord w) {cs : List Char}
    (hends : EndsWord cs) (start : Nat) :
    words start (w ++ cs) = ⟨String.ofList w, start, start + byteLength w⟩ ::
      words (start + byteLength w) cs := by
  rw [words, wordsFrom_append hw hends, List.map_cons, words]

/-- A text that starts in the middle of a word has a first word that starts with
the same character. -/
theorem exists_words_cons {c : Char} (h : isBlank c = false) (cs : List Char)
    (start : Nat) :
    ∃ first others, words start (c :: cs) = first :: others ∧
      first.text.toList.head? = some c := by
  rw [words, wordsFrom, if_neg (by simp [h])]
  split
  · exact ⟨_, _, rfl, by simp⟩
  · split_ifs <;> exact ⟨_, _, rfl, by simp⟩

/-- A row of words with a blank in front of each one, and one blank at the end. -/
theorem words_join {ws : List (List Char)} (h : ∀ w ∈ ws, OneWord w) (start : Nat) :
    (words start (ws.flatMap (' ' :: ·) ++ [' '])).map (·.text) =
      ws.map String.ofList := by
  induction ws generalizing start with
  | nil => rfl
  | cons w ws ih =>
    have hrest := ih (fun v hv => h v (List.mem_cons_of_mem w hv))
      (start + ' '.utf8Size + byteLength w)
    have hends : EndsWord (ws.flatMap (' ' :: ·) ++ [' ']) := by
      cases ws with
      | nil => exact endsWord_cons rfl _
      | cons v ws => exact endsWord_cons rfl _
    have hfirst := words_append (h w List.mem_cons_self) hends (start + ' '.utf8Size)
    rw [List.flatMap_cons, List.cons_append, List.cons_append, List.append_assoc, words,
      wordsFrom_blank rfl, ← words, hfirst, List.map_cons, hrest, List.map_cons]

/-! ## The place of a word -/

/-- The characters are words with a blank behind each of them, and further blanks. -/
inductive Lead : List Char → List (List Char) → Prop where
  | blanks {cs : List Char} (h : ∀ c ∈ cs, isBlank c = true) : Lead cs []
  | word {blanks word cs : List Char} {c : Char} {ws : List (List Char)}
      (hblanks : ∀ c ∈ blanks, isBlank c = true) (hword : OneWord word)
      (hc : isBlank c = true) (hcs : Lead (c :: cs) ws) :
      Lead (blanks ++ word ++ c :: cs) (word :: ws)

/-- The characters `inside` are the next word behind the given ones. -/
structure WordAt (earlier : List (List Char)) (before inside after : List Char) : Prop where
  lead : Lead before earlier
  word : OneWord inside
  ends : EndsWord after

/-- Characters are blank, or they have a first word. -/
theorem blank_or_word (cs : List Char) :
    (∀ c ∈ cs, isBlank c = true) ∨
      ∃ before inside after, cs = before ++ inside ++ after ∧
        WordAt [] before inside after := by
  induction cs with
  | nil => exact .inl (by simp)
  | cons c cs ih =>
    cases hc : isBlank c with
    | true =>
      rcases ih with hblank | ⟨before, inside, after, rfl, hlead, hword, hends⟩
      · exact .inl (List.forall_mem_cons.2 ⟨hc, hblank⟩)
      · obtain ⟨hbefore⟩ := hlead
        have hblanks : ∀ d ∈ c :: before, isBlank d = true :=
          List.forall_mem_cons.2 ⟨hc, hbefore⟩
        exact .inr ⟨c :: before, inside, after, rfl, .blanks hblanks, hword, hends⟩
    | false =>
      have hnone : Lead [] [] := .blanks (by simp)
      have hsingle : OneWord [c] := ⟨by simp, by simpa using hc⟩
      rcases ih with hblank | ⟨before, inside, after, rfl, hlead, hword, hends⟩
      · have hends : EndsWord cs := fun d hd => hblank d (List.mem_of_mem_head? hd)
        exact .inr ⟨[], [c], cs, rfl, hnone, hsingle, hends⟩
      · obtain ⟨hbefore⟩ := hlead
        cases before with
        | nil =>
          -- the character runs into the word behind it
          have hlonger : OneWord (c :: inside) :=
            ⟨by simp, List.forall_mem_cons.2 ⟨hc, hword.not_blank⟩⟩
          exact .inr ⟨[], c :: inside, after, rfl, hnone, hlonger, hends⟩
        | cons b before =>
          exact .inr ⟨[], [c], _, rfl, hnone, hsingle, endsWord_cons (by simp [hbefore]) _⟩

/-- Behind a word there is a blank before the next one. -/
theorem Lead.cons {blanks word before inside after : List Char} {ws : List (List Char)}
    (hblanks : ∀ c ∈ blanks, isBlank c = true) (hword : OneWord word)
    (hends : EndsWord (before ++ inside ++ after)) (hinside : OneWord inside)
    (hbefore : Lead before ws) : Lead (blanks ++ word ++ before) (word :: ws) := by
  cases before with
  | cons c before => exact .word hblanks hword (hends c rfl) hbefore
  | nil =>
    obtain ⟨c, inside, rfl⟩ := List.exists_cons_of_ne_nil hinside.ne_nil
    have hblank := hends c rfl
    simp [hinside.not_blank c List.mem_cons_self] at hblank

theorem words_blanks {blanks : List Char} (h : ∀ c ∈ blanks, isBlank c = true)
    (start : Nat) (cs : List Char) :
    words start (blanks ++ cs) = words (start + byteLength blanks) cs := by
  induction blanks generalizing start with
  | nil => rfl
  | cons c blanks ih =>
    obtain ⟨hc, hrest⟩ := List.forall_mem_cons.1 h
    rw [List.cons_append, words, wordsFrom_blank hc, ← words, ih hrest, byteLength_cons,
      Nat.add_assoc]

/-- Every word stands where its bytes say, behind the words before it. -/
theorem exists_of_words {start : Nat} {cs : List Char} {front rest : List Word} {w : Word}
    (h : words start cs = front ++ w :: rest) :
    ∃ before inside after, cs = before ++ inside ++ after ∧
      WordAt (front.map fun v => v.text.toList) before inside after ∧
      w = ⟨String.ofList inside, start + byteLength before,
        start + byteLength (before ++ inside)⟩ := by
  induction front generalizing start cs with
  | nil =>
    rcases blank_or_word cs with hblank | ⟨before, inside, after, rfl, hat⟩
    · have hnone := words_blanks hblank start []
      rw [List.append_nil, h] at hnone
      simp [words, wordsFrom] at hnone
    · obtain ⟨hbefore⟩ := hat.lead
      rw [List.append_assoc, words_blanks hbefore, words_append hat.word hat.ends] at h
      obtain ⟨rfl, -⟩ := List.cons.inj h
      refine ⟨before, inside, after, by rw [List.append_assoc], hat, ?_⟩
      rw [byteLength_append, Nat.add_assoc]
  | cons f front ih =>
    rcases blank_or_word cs with hblank | ⟨blanks, word, behind, rfl, hat⟩
    · have hnone := words_blanks hblank start []
      rw [List.append_nil, h] at hnone
      simp [words, wordsFrom] at hnone
    · obtain ⟨hblanks⟩ := hat.lead
      rw [List.append_assoc, words_blanks hblanks, words_append hat.word hat.ends] at h
      obtain ⟨rfl, hrest⟩ := List.cons.inj h
      obtain ⟨before, inside, after, rfl, hnext, rfl⟩ := ih hrest
      have hlead := Lead.cons hblanks hat.word hat.ends hnext.word hnext.lead
      refine ⟨blanks ++ word ++ before, inside, after, by simp, ?_, ?_⟩
      · refine ⟨?_, hnext.word, hnext.ends⟩
        rw [List.map_cons, String.toList_ofList]
        exact hlead
      · simp [Nat.add_assoc]

/-! ## The end of a line -/

theorem trimEnd_append {cs : List Char} (h : ∀ c ∈ cs.getLast?, isBlank c = false)
    (ds : List Char) : trimEnd (cs ++ ds) = cs ++ trimEnd ds := by
  induction cs with
  | nil => rfl
  | cons c cs ih =>
    cases cs with
    | nil =>
      rw [List.singleton_append, trimEnd]
      cases trimEnd ds with
      | nil => simp [h c rfl]
      | cons d ds => rfl
    | cons d cs =>
      rw [List.cons_append, trimEnd, ih h]
      rfl

/-- What is trimmed ends with a character that is not blank. -/
theorem getLast?_trimEnd (cs : List Char) :
    ∀ c ∈ (trimEnd cs).getLast?, isBlank c = false := by
  induction cs with
  | nil => simp [trimEnd]
  | cons c cs ih =>
    rw [trimEnd]
    split
    next =>
      cases hc : isBlank c with
      | true => simp
      | false => simpa using hc
    next hne =>
      obtain ⟨d, ds, hkept⟩ := List.exists_cons_of_ne_nil hne
      rw [hkept, List.getLast?_cons_cons, ← hkept]
      exact ih

/-- Only blanks are trimmed. -/
theorem exists_trimEnd_append (cs : List Char) :
    ∃ blanks, cs = trimEnd cs ++ blanks ∧ ∀ c ∈ blanks, isBlank c = true := by
  induction cs with
  | nil => exact ⟨[], rfl, by simp⟩
  | cons c cs ih =>
    obtain ⟨blanks, hcs, hblanks⟩ := ih
    rw [trimEnd]
    split
    next hnil =>
      rw [hnil, List.nil_append] at hcs
      subst hcs
      cases hc : isBlank c with
      | true => exact ⟨c :: cs, by simp, List.forall_mem_cons.2 ⟨hc, hblanks⟩⟩
      | false => exact ⟨cs, by simp, hblanks⟩
    next => exact ⟨blanks, by rw [List.cons_append, ← hcs], hblanks⟩

/-! ## Lines -/

/-- Characters without a line feed or a carriage return among them. -/
def Unbroken (cs : List Char) : Prop :=
  '\n' ∉ cs ∧ '\r' ∉ cs

instance (cs : List Char) : Decidable (Unbroken cs) :=
  inferInstanceAs (Decidable ('\n' ∉ cs ∧ '\r' ∉ cs))

theorem Unbroken.append {cs ds : List Char} (hcs : Unbroken cs) (hds : Unbroken ds) :
    Unbroken (cs ++ ds) := by
  constructor
  · exact List.not_mem_append hcs.1 hds.1
  · exact List.not_mem_append hcs.2 hds.2

/-- Unbroken characters, and at least one. -/
structure OneLine (cs : List Char) : Prop where
  ne_nil : cs ≠ []
  unbroken : Unbroken cs

/-- The first line is cut off behind its line feed. -/
theorem cutLines_append {cs : List Char} (h : '\n' ∉ cs) (ds : List Char) :
    cutLines (cs ++ '\n' :: ds) = (cs ++ ['\n']) :: cutLines ds := by
  induction cs with
  | nil => simp [cutLines]
  | cons c cs ih =>
    rw [List.mem_cons, not_or] at h
    rw [List.cons_append, cutLines, if_neg (Ne.symm h.1), ih h.2]
    rfl

theorem cutLines_last {cs : List Char} (h : OneLine cs) : cutLines cs = [cs] := by
  obtain ⟨hne, hfeed, -⟩ := h
  induction cs with
  | nil => exact absurd rfl hne
  | cons c cs ih =>
    rw [List.mem_cons, not_or] at hfeed
    rw [cutLines, if_neg (Ne.symm hfeed.1)]
    by_cases hlast : cs = []
    · rw [hlast]
      rfl
    · rw [ih hlast hfeed.2]
      rfl

theorem OneLine.stripLineEnd {cs : List Char} (h : OneLine cs) :
    stripLineEnd cs = cs := by
  rw [TwentyFour.stripLineEnd, if_neg]
  intro hlast
  exact h.unbroken.1 (List.mem_of_getLast? hlast)

theorem OneLine.stripLineEnd_append {cs : List Char} (h : OneLine cs) :
    TwentyFour.stripLineEnd (cs ++ ['\n']) = cs := by
  rw [TwentyFour.stripLineEnd, if_pos (by simp), List.dropLast_concat, dropReturn, if_neg]
  intro hlast
  exact h.unbroken.2 (List.mem_of_getLast? hlast)

/-- Lines that are put together are cut into the same lines again. -/
theorem lines_intercalate {texts : List String} (h : ∀ x ∈ texts, OneLine x.toList) :
    lines ("\n".intercalate texts) = texts := by
  induction texts with
  | nil => rfl
  | cons x texts ih =>
    have hx : OneLine x.toList := h x List.mem_cons_self
    have hrest := ih fun y hy => h y (List.mem_cons_of_mem x hy)
    have hfeed : ("\n" : String).toList = ['\n'] := rfl
    cases texts with
    | nil =>
      rw [String.intercalate_singleton, lines, cutLines_last hx]
      simp [hx.stripLineEnd]
    | cons y texts =>
      rw [String.intercalate_cons_cons, lines]
      simp only [String.toList_append, hfeed, List.append_assoc, List.singleton_append]
      rw [cutLines_append hx.unbroken.1, List.map_cons, hx.stripLineEnd_append,
        String.ofList_toList]
      exact congrArg (x :: ·) hrest

end TwentyFour
