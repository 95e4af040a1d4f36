import TwentyFour.Proofs.Segments

/-!
# Tilings of a text

The tokens of a text tile it: each stands where the one in front of it ends, and each is as
long as it can be.  There is no other way to tile a text with tokens.

* `Kind.Matches` are the patterns of the tokens, in characters.  `matches_iff` says that they
  are the groups that a text is cut into.
* `Tiling` is what tokens must satisfy to tile a text.
* `eq_placeFrom_of_gapless` and `Tiling.grouped` take a tiling apart, into the places of its
  tokens and their words; `Tiling.eq_tokens` puts it together again.
* `tokens_tile_uniquely` is the result.
-/

namespace TwentyFour

/-! ## The patterns of tokens -/

/-- The blank characters. -/
def blanks : List Char :=
  [' ', '\t', '\n', '\r']

/-- The operators and the parentheses. -/
def signs : List Char :=
  ['+', '-', '*', '×', '/', '÷', '(', ')']

namespace Kind

/-- Characters match the pattern of a kind of tokens. -/
def Matches (cs : List Char) : Kind → Prop
  | .blank => cs ≠ [] ∧ ∀ c ∈ cs, c ∈ blanks
  | .add => cs = ['+']
  | .sub => cs = ['-']
  | .mul => cs = ['*'] ∨ cs = ['×']
  | .div => cs = ['/'] ∨ cs = ['÷']
  | .openParen => cs = ['(']
  | .closeParen => cs = [')']
  | .int => cs ≠ [] ∧ ∀ c ∈ cs, c.isDigit = true
  | .symbol => ∃ c, cs = [c] ∧ c ∉ blanks ∧ c ∉ signs ∧ c.isDigit = false

theorem ofChar_eq_blank_iff {c : Char} : ofChar c = .blank ↔ c ∈ blanks := by
  simp only [blanks, List.mem_cons, List.not_mem_nil]
  grind [ofChar]

theorem ofChar_eq_int_iff {c : Char} : ofChar c = .int ↔ c.isDigit = true :=
  ⟨isDigit_of_ofChar, ofChar_of_isDigit⟩

theorem ofChar_eq_symbol_iff {c : Char} :
    ofChar c = .symbol ↔ c ∉ blanks ∧ c ∉ signs ∧ c.isDigit = false := by
  refine ⟨fun h => ⟨fun hmem => ?_, fun hmem => ?_, ?_⟩, fun ⟨hblank, hsign, hdigit⟩ => ?_⟩
  · rw [ofChar_eq_blank_iff.2 hmem] at h
    exact Kind.noConfusion h
  · have hsigns : (signs.all fun c => ofChar c ≠ .symbol) = true := rfl
    exact of_decide_eq_true (List.all_eq_true.1 hsigns c hmem) h
  · rw [Bool.eq_false_iff]
    intro hdigit
    rw [ofChar_of_isDigit hdigit] at h
    exact Kind.noConfusion h
  · simp only [blanks, signs, List.mem_cons, List.not_mem_nil, or_false, not_or] at hblank hsign
    simp [ofChar, hblank, hsign, hdigit]

theorem isGroup_iff_of_isRun {kind : Kind} (hrun : kind.isRun = true) {cs : List Char} :
    IsGroup (kind, cs) ↔ cs ≠ [] ∧ ∀ c ∈ cs, ofChar c = kind :=
  ⟨fun h => ⟨h.ne_nil, h.ofChar_eq⟩, fun ⟨hne, hkind⟩ => ⟨hne, hkind, by simp [hrun]⟩⟩

theorem isGroup_iff_of_single {kind : Kind} (hrun : kind.isRun = false) {cs : List Char} :
    IsGroup (kind, cs) ↔ ∃ c, cs = [c] ∧ ofChar c = kind := by
  constructor
  · intro h
    obtain ⟨c, hc⟩ := h.single hrun
    have hcs : cs = [c] := hc
    exact ⟨c, hcs, h.ofChar_eq c (by simp [hcs])⟩
  · rintro ⟨c, rfl, rfl⟩
    exact isGroup_singleton c

/-- The patterns describe the groups that a text is cut into. -/
theorem matches_iff {kind : Kind} {cs : List Char} :
    kind.Matches cs ↔ IsGroup (kind, cs) := by
  have hsign : ∀ c, (ofChar c = .add ↔ c = '+') ∧ (ofChar c = .sub ↔ c = '-') ∧
      (ofChar c = .mul ↔ c = '*' ∨ c = '×') ∧ (ofChar c = .div ↔ c = '/' ∨ c = '÷') ∧
      (ofChar c = .openParen ↔ c = '(') ∧ (ofChar c = .closeParen ↔ c = ')') := by
    intro c
    refine ⟨?_, ?_, ?_, ?_, ?_, ?_⟩ <;> grind [ofChar]
  cases kind with
  | blank =>
    rw [isGroup_iff_of_isRun rfl]
    simp [Matches, ofChar_eq_blank_iff]
  | int =>
    rw [isGroup_iff_of_isRun rfl]
    simp [Matches, ofChar_eq_int_iff]
  | symbol =>
    rw [isGroup_iff_of_single rfl]
    simp [Matches, ofChar_eq_symbol_iff]
  | add | sub | mul | div | openParen | closeParen =>
    rw [isGroup_iff_of_single rfl]
    simp [Matches, hsign, and_or_left, exists_or]

/-- Only blanks and digits make runs. -/
theorem apart_iff {k l : Kind} : (k.isRun = true → k ≠ l) ↔
    ¬ (k = .blank ∧ l = .blank) ∧ ¬ (k = .int ∧ l = .int) := by
  cases k <;> cases l <;> simp [isRun]

end Kind

/-! ## Tilings -/

/-- Each token starts where the one in front of it ends, from one byte to another. -/
def Gapless : Nat → List Token → Nat → Prop
  | start, [], stop => start = stop
  | start, t :: ts, stop => t.span.start = start ∧ Gapless t.span.stop ts stop

/-- Tokens that tile a text. -/
structure Tiling (text : String) (ts : List Token) : Prop where
  /-- The spans are not empty. -/
  start_lt_stop : ∀ t ∈ ts, t.span.start < t.span.stop
  /-- The spans have no gaps between them and do not overlap. -/
  gapless : Gapless 0 ts (byteLength text.toList)
  /-- The spans end between characters, and a lexeme is the text at its span. -/
  covers : ∀ t ∈ ts, ∃ before after, Covers text t.span before t.lexeme.toList after
  /-- The lexemes match the patterns of their kinds. -/
  matched : ∀ t ∈ ts, t.kind.Matches t.lexeme.toList
  /-- No run of blanks or digits goes on in the next token. -/
  apart : ts.IsChain fun t u =>
    ¬ (t.kind = .blank ∧ u.kind = .blank) ∧ ¬ (t.kind = .int ∧ u.kind = .int)

theorem byteLength_pos {cs : List Char} (h : cs ≠ []) : 0 < byteLength cs := by
  obtain ⟨c, cs, rfl⟩ := List.exists_cons_of_ne_nil h
  exact Nat.lt_of_lt_of_le c.utf8Size_pos (Nat.le_add_right _ _)

theorem append_inj_of_byteLength {cs cs' ds ds' : List Char} (h : cs ++ ds = cs' ++ ds')
    (hlength : byteLength cs = byteLength cs') : cs = cs' ∧ ds = ds' := by
  have hchars := charsInBytes?_append cs ds
  rw [h, hlength, charsInBytes?_append] at hchars
  exact List.append_inj h (Option.some.inj hchars).symm

theorem placeFrom_cons_word (start : Nat) (t : Token) (groups : List (Kind × List Char)) :
    placeFrom start (t.word :: groups) =
      ⟨t.kind, t.lexeme, start, start + byteLength t.lexeme.toList⟩ ::
        placeFrom (start + byteLength t.lexeme.toList) groups := by
  rw [Token.word, placeFrom, String.ofList_toList]

/-- Tokens that tile the rest of a text spell it, and stand where their words are placed. -/
theorem eq_placeFrom_of_gapless {text : String} {front rest : List Char} {ts : List Token}
    (htext : text.toList = front ++ rest)
    (hcovers : ∀ t ∈ ts, ∃ before after, Covers text t.span before t.lexeme.toList after)
    (hgapless : Gapless (byteLength front) ts (byteLength text.toList)) :
    ts = placeFrom (byteLength front) (ts.map Token.word) ∧ spelling ts = rest := by
  induction ts generalizing front rest with
  | nil =>
    have hends : front ++ rest = text.toList ++ [] := by rw [← htext, List.append_nil]
    exact ⟨rfl, (append_inj_of_byteLength hends hgapless).2.symm⟩
  | cons t ts ih =>
    obtain ⟨⟨before, after, hcover⟩, hcovers⟩ := List.forall_mem_cons.1 hcovers
    obtain ⟨hstart, hgapless⟩ := hgapless
    -- no character is empty, so the byte where the token starts is the end of one front only
    have hsplit : front ++ rest = before ++ (t.lexeme.toList ++ after) := by
      rw [← htext, hcover.source_eq, List.append_assoc]
    obtain ⟨rfl, rfl⟩ := append_inj_of_byteLength hsplit
      (hstart.symm.trans hcover.start_eq)
    rw [hcover.stop_eq] at hgapless
    obtain ⟨hplaces, hspelling⟩ := ih hcover.source_eq hcovers hgapless
    rw [byteLength_append] at hplaces
    have hspan : t.span = ⟨byteLength front, byteLength front + byteLength t.lexeme.toList⟩ := by
      rw [← byteLength_append, ← hstart, ← hcover.stop_eq]
    refine ⟨?_, by rw [spelling_cons, hspelling]⟩
    rw [List.map_cons, placeFrom_cons_word, ← hplaces, ← hspan]

/-- The words of a tiling are grouped as a text is. -/
theorem Tiling.grouped {text : String} {ts : List Token} (h : Tiling text ts) :
    Grouped (ts.map Token.word) where
  isGroup := List.forall_mem_map.2 fun t ht => Kind.matches_iff.1 (h.matched t ht)
  apart := (List.isChain_map _).2 (h.apart.imp fun _ _ => Kind.apart_iff.2)

/-- Only the tokens of a text tile it. -/
theorem Tiling.eq_tokens {text : String} {ts : List Token} (h : Tiling text ts) :
    ts = tokens text := by
  obtain ⟨hplaces, hspelling⟩ :=
    eq_placeFrom_of_gapless (List.nil_append _).symm h.covers h.gapless
  have hwords : runs text.toList = ts.map Token.word := by
    rw [← hspelling]
    have hruns := runs_flatten h.grouped
    rwa [List.map_map] at hruns
  rw [tokens, hwords]
  exact hplaces

theorem gapless_placeFrom (start : Nat) (groups : List (Kind × List Char)) :
    Gapless start (placeFrom start groups)
      (start + byteLength (groups.map (·.2)).flatten) := by
  induction groups generalizing start with
  | nil => rfl
  | cons group groups ih =>
    refine ⟨rfl, ?_⟩
    rw [List.map_cons, List.flatten_cons, byteLength_append, ← Nat.add_assoc]
    exact ih _

/-- The tokens of a text tile it. -/
theorem tiling_tokens (text : String) : Tiling text (tokens text) where
  start_lt_stop t ht := by
    obtain ⟨xs, ys, htokens⟩ := List.append_of_mem ht
    have hcovers := covers_of_tokens htokens
    have hne := (kind_of_mem_runs (mem_runs_of_mem_placeFrom ht)).1
    rw [hcovers.start_eq, hcovers.stop_eq, byteLength_append]
    exact Nat.lt_add_of_pos_right (byteLength_pos hne)
  gapless := by
    have hgapless := gapless_placeFrom 0 (runs text.toList)
    rwa [flatten_runs, Nat.zero_add] at hgapless
  covers t ht := by
    obtain ⟨xs, ys, htokens⟩ := List.append_of_mem ht
    exact ⟨_, _, covers_of_tokens htokens⟩
  matched t ht :=
    Kind.matches_iff.2 ((grouped_runs text.toList).isGroup _ (mem_runs_of_mem_placeFrom ht))
  apart := by
    have hapart := (grouped_runs text.toList).apart
    rw [← map_word_placeFrom 0 (runs text.toList), List.isChain_map] at hapart
    exact hapart.imp fun _ _ => Kind.apart_iff.1

/-- The tokens of a text tile it, and nothing else does.  Their lexemes put together are the
text.  A token that is no run is a single character, and it is one that belongs nowhere
exactly if it is no blank, no sign and no digit. -/
theorem tokens_tile_uniquely (text : String) :
    Tiling text (tokens text) ∧
    spelling (tokens text) = text.toList ∧
    (∀ t ∈ tokens text, t.kind ≠ .blank → t.kind ≠ .int →
      ∃ c, t.lexeme.toList = [c] ∧
        (t.kind = .symbol ↔ c ∉ blanks ∧ c ∉ signs ∧ c.isDigit = false)) ∧
    ∀ ts, Tiling text ts → ts = tokens text := by
  refine ⟨tiling_tokens text, spelling_tokens text, fun t ht hblank hint => ?_,
    fun ts => Tiling.eq_tokens⟩
  have hrun : t.kind.isRun = false := by
    generalize t.kind = kind at hblank hint
    cases kind <;> simp_all [Kind.isRun]
  obtain ⟨c, hc, hkind⟩ := exists_char_of_mem_tokens ht hrun
  exact ⟨c, hc, by rw [← hkind, Kind.ofChar_eq_symbol_iff]⟩

/-- `12 ×π` has one tiling; its last character takes two bytes and belongs nowhere. -/
theorem tokens_tile_uniquely_twelve_times_pi :
    Tiling "12 ×π" [⟨.int, "12", 0, 2⟩, ⟨.blank, " ", 2, 3⟩, ⟨.mul, "×", 3, 5⟩,
      ⟨.symbol, "π", 5, 7⟩] ∧
    ∀ ts, Tiling "12 ×π" ts → ts = [⟨.int, "12", 0, 2⟩, ⟨.blank, " ", 2, 3⟩,
      ⟨.mul, "×", 3, 5⟩, ⟨.symbol, "π", 5, 7⟩] := by
  obtain ⟨htiling, -, -, hunique⟩ := tokens_tile_uniquely "12 ×π"
  have htokens : tokens "12 ×π" = [⟨.int, "12", 0, 2⟩, ⟨.blank, " ", 2, 3⟩,
      ⟨.mul, "×", 3, 5⟩, ⟨.symbol, "π", 5, 7⟩] := by decide +kernel
  rw [htokens] at htiling hunique
  exact ⟨htiling, hunique⟩

end TwentyFour
