import TwentyFour.Proofs.RoundTrip

/-!
# Segments of a text

Neighbouring tokens of a text stand at neighbouring characters of it, and read on their
own these characters have the same tokens.

* `Covers` says which characters a span covers, and which are in front of it and behind
  it.  It gives the order of the ends, the offsets in characters, and the text from the
  span on.
* `spelling` are the characters of tokens, and `extent` is the span from the first of
  them to the last.  `covers_of_visibleTokens` puts neighbouring visible tokens into
  their place in the text.
* `runs_spelling` says that a segment is cut into the same words on its own.
* `Derives.relocate` says that what is derivable does not depend on what follows, so that
  `parse_of_operand` reads an operand on its own.
-/

namespace TwentyFour

/-! ## What a span covers -/

/-- The span covers the characters `inside` of the text, between the others. -/
structure Covers (source : String) (span : Span) (before inside after : List Char) :
    Prop where
  source_eq : source.toList = before ++ inside ++ after
  start_eq : span.start = byteLength before
  stop_eq : span.stop = byteLength (before ++ inside)

theorem charsInBytes?_append (cs ds : List Char) :
    charsInBytes? (byteLength cs) (cs ++ ds) = some cs.length := by
  induction cs with
  | nil => cases ds <;> rfl
  | cons c cs ih =>
    have hpos := c.utf8Size_pos
    obtain ⟨n, hn⟩ : ∃ n, byteLength (c :: cs) = n + 1 :=
      ⟨byteLength (c :: cs) - 1, by simp; omega⟩
    have hle : c.utf8Size ≤ n + 1 := by simp at hn; omega
    have hrest : n + 1 - c.utf8Size = byteLength cs := by simp at hn; omega
    rw [hn, List.cons_append, charsInBytes?, if_pos hle, hrest, ih, Option.map_some,
      List.length_cons]

/-- A byte between two characters is converted to the number of characters before it. -/
theorem charOffset_of_append {source : String} {cs ds : List Char}
    (h : source.toList = cs ++ ds) : charOffset source (byteLength cs) = cs.length := by
  rw [charOffset, h, charsInBytes?_append, Option.getD_some]

namespace Covers

variable {source : String} {span : Span} {before inside after : List Char}

theorem bounds (h : Covers source span before inside after) :
    span.start ≤ span.stop ∧ span.stop ≤ byteLength source.toList := by
  rw [h.start_eq, h.stop_eq, h.source_eq, byteLength_append (before ++ inside)]
  exact ⟨by simp, Nat.le_add_right _ _⟩

theorem charOffsets (h : Covers source span before inside after) :
    charOffset source span.start = before.length ∧
      charOffset source span.stop = (before ++ inside).length := by
  have hrest : source.toList = before ++ (inside ++ after) := by
    rw [h.source_eq, List.append_assoc]
  rw [h.start_eq, h.stop_eq]
  exact ⟨charOffset_of_append hrest, charOffset_of_append h.source_eq⟩

theorem suffixFrom_start (h : Covers source span before inside after) :
    suffixFrom source span.start = String.ofList (inside ++ after) := by
  rw [suffixFrom, h.start_eq, h.source_eq, List.append_assoc, dropBytes_append]

/-- A span in the last part of a line, moved behind the first part. -/
theorem shift {line : String} {front : List Char}
    (h : Covers source span before inside after) (hline : line.toList = front ++ source.toList) :
    Covers line (span.shift (byteLength front)) (front ++ before) inside after := by
  refine ⟨?_, ?_, ?_⟩
  · rw [hline, h.source_eq]
    simp only [List.append_assoc]
  · rw [byteLength_append, ← h.start_eq]
    exact Nat.add_comm _ _
  · rw [List.append_assoc, byteLength_append front, ← h.stop_eq]
    exact Nat.add_comm _ _

end Covers

/-! ## The place of tokens -/

/-- The characters of tokens. -/
def spelling (ts : List Token) : List Char :=
  (ts.map fun tok => tok.lexeme.toList).flatten

@[simp] theorem spelling_nil : spelling [] = [] := rfl

@[simp] theorem spelling_cons (tok : Token) (ts : List Token) :
    spelling (tok :: ts) = tok.lexeme.toList ++ spelling ts := rfl

@[simp] theorem spelling_append (xs ys : List Token) :
    spelling (xs ++ ys) = spelling xs ++ spelling ys := by
  simp [spelling]

theorem spelling_tokens (text : String) : spelling (tokens text) = text.toList :=
  lexemes_tokens text

/-- The span from the first token to the last one. -/
def extent (ts : List Token) : Span :=
  ⟨(ts.head?.map (·.span.start)).getD 0, (ts.getLast?.map (·.span.stop)).getD 0⟩

@[simp] theorem extent_singleton (tok : Token) : extent [tok] = tok.span := rfl

theorem extent_cons_concat (first last : Token) (ts : List Token) :
    extent (first :: (ts ++ [last])) = ⟨first.span.start, last.span.stop⟩ := by
  rw [extent, ← List.cons_append, List.getLast?_concat]
  rfl

theorem span_of_placeFrom {start : Nat} {groups : List (Kind × List Char)}
    {xs ys : List Token} {tok : Token} (h : placeFrom start groups = xs ++ tok :: ys) :
    tok.span = ⟨start + byteLength (spelling xs),
      start + byteLength (spelling (xs ++ [tok]))⟩ := by
  induction xs generalizing start groups with
  | nil =>
    cases groups with
    | nil => simp [placeFrom] at h
    | cons group groups =>
      rw [placeFrom] at h
      obtain ⟨rfl, -⟩ := List.cons.inj h
      simp
  | cons x xs ih =>
    cases groups with
    | nil => simp [placeFrom] at h
    | cons group groups =>
      rw [placeFrom] at h
      obtain ⟨rfl, hrest⟩ := List.cons.inj h
      rw [ih hrest]
      simp [Nat.add_assoc]

theorem span_of_tokens {text : String} {xs ys : List Token} {tok : Token}
    (h : tokens text = xs ++ tok :: ys) :
    tok.span = ⟨byteLength (spelling xs), byteLength (spelling (xs ++ [tok]))⟩ := by
  have hspan := span_of_placeFrom h
  rwa [Nat.zero_add, Nat.zero_add] at hspan

/-! ## Visible tokens and the blanks between them -/

theorem visible_tokens (text : String) : visible (tokens text) = visibleTokens text := rfl

theorem mem_visible {ts : List Token} {tok : Token} :
    tok ∈ visible ts ↔ tok ∈ ts ∧ tok.kind ≠ .blank := by
  simp [visible]

theorem visible_append (xs ys : List Token) : visible (xs ++ ys) = visible xs ++ visible ys :=
  List.filter_append xs ys

theorem visible_cons {tok : Token} (h : tok.kind ≠ .blank) (ts : List Token) :
    visible (tok :: ts) = tok :: visible ts :=
  List.filter_cons_of_pos (by simpa using h)

/-- A visible token stands between the visible tokens in front of it and behind it. -/
theorem exists_of_visible {ts front rest : List Token} {tok : Token}
    (h : visible ts = front ++ tok :: rest) :
    ∃ xs ys, ts = xs ++ tok :: ys ∧ visible xs = front ∧ visible ys = rest := by
  obtain ⟨as, bs, rfl, hfront, htok⟩ := List.filter_eq_append_iff.1 h
  obtain ⟨cs, ds, rfl, hblank, -, hrest⟩ := List.filter_eq_cons_iff.1 htok
  have hnone : visible cs = [] := List.filter_eq_nil_iff.2 hblank
  refine ⟨as ++ cs, ds, by rw [List.append_assoc], ?_, hrest⟩
  rw [visible_append, hnone, List.append_nil]
  exact hfront

/-- A token covers its characters. -/
theorem covers_of_tokens {text : String} {xs ys : List Token} {tok : Token}
    (h : tokens text = xs ++ tok :: ys) :
    Covers text tok.span (spelling xs) tok.lexeme.toList (spelling ys) := by
  have hspan := span_of_tokens h
  refine ⟨?_, ?_, ?_⟩
  · rw [← spelling_tokens, h]
    simp
  · rw [hspan]
  · rw [hspan]
    simp

/-- A visible token covers its characters. -/
theorem covers_of_visibleToken {text : String} {front rest : List Token} {tok : Token}
    (h : visibleTokens text = front ++ tok :: rest) :
    ∃ xs ys, tokens text = xs ++ tok :: ys ∧ visible xs = front ∧ visible ys = rest ∧
      Covers text tok.span (spelling xs) tok.lexeme.toList (spelling ys) := by
  rw [← visible_tokens] at h
  obtain ⟨xs, ys, htokens, hxs, hys⟩ := exists_of_visible h
  exact ⟨xs, ys, htokens, hxs, hys, covers_of_tokens htokens⟩

/-- Neighbouring visible tokens cover their characters, and the blanks between them. -/
theorem covers_of_visibleTokens {text : String} {front segment rest : List Token}
    (hne : segment ≠ []) (h : visibleTokens text = front ++ segment ++ rest) :
    ∃ xs ys zs, tokens text = xs ++ ys ++ zs ∧ visible xs = front ∧ visible ys = segment ∧
      visible zs = rest ∧
      Covers text (extent segment) (spelling xs) (spelling ys) (spelling zs) := by
  have hvisible : ∀ tok ∈ segment, tok.kind ≠ .blank := by
    intro tok htok
    have hmem : tok ∈ visible (tokens text) := by simp [visible_tokens, h, htok]
    exact (mem_visible.1 hmem).2
  obtain ⟨first, segment, rfl⟩ := List.exists_cons_of_ne_nil hne
  rw [List.append_assoc, List.cons_append] at h
  obtain ⟨xs, ys, htokens, hxs, hys, hcovers⟩ := covers_of_visibleToken h
  have hfirst := hvisible first List.mem_cons_self
  rcases List.eq_nil_or_concat segment with rfl | ⟨segment, last, rfl⟩
  · exact ⟨xs, [first], ys, by simp [htokens], hxs, visible_cons hfirst [], hys,
      by simpa using hcovers⟩
  · rw [List.concat_eq_append] at hys hvisible ⊢
    rw [List.append_assoc, List.singleton_append] at hys
    obtain ⟨ys, zs, rfl, hsegment, hzs⟩ := exists_of_visible hys
    have hsplit : tokens text = (xs ++ first :: ys) ++ last :: zs := by
      rw [htokens, List.append_assoc, List.cons_append]
    have hlast := hvisible last (by simp)
    refine ⟨xs, first :: (ys ++ [last]), zs, by simp [htokens], hxs, ?_, hzs, ?_, ?_, ?_⟩
    · rw [visible_cons hfirst, visible_append, hsegment, visible_cons hlast]
      rfl
    · rw [← spelling_tokens, htokens]
      simp
    · rw [extent_cons_concat, ← hcovers.start_eq]
    · rw [extent_cons_concat, span_of_tokens hsplit]
      simp

/-! ## A segment on its own -/

/-- Neighbouring tokens of a text are the words of their characters. -/
theorem runs_spelling {text : String} {xs ys zs : List Token}
    (h : tokens text = xs ++ ys ++ zs) : runs (spelling ys) = ys.map Token.word := by
  have hwords : runs text.toList = xs.map Token.word ++ (ys ++ zs).map Token.word := by
    rw [← List.map_append, ← List.append_assoc, ← h, tokens, map_word_placeFrom]
  have hgrouped := hwords ▸ grouped_runs text.toList
  rw [List.map_append] at hgrouped
  have hruns := runs_flatten hgrouped.append_right.append_left
  rwa [List.map_map] at hruns

/-- Read on their own, neighbouring tokens are the same words. -/
theorem map_word_visibleTokens_spelling {text : String} {xs ys zs : List Token}
    (h : tokens text = xs ++ ys ++ zs) :
    (visibleTokens (String.ofList (spelling ys))).map Token.word =
      (visible ys).map Token.word := by
  have hfilter : (fun tok : Token => decide (tok.kind ≠ .blank)) =
      (fun w : Kind × List Char => decide (w.1 ≠ .blank)) ∘ Token.word := rfl
  rw [map_word_visibleTokens, String.toList_ofList, visibleWords, runs_spelling h, visible,
    hfilter, List.filter_map]

theorem exists_append_of_words {ts xs ys : List Token}
    (h : ts.map Token.word = (xs ++ ys).map Token.word) :
    ∃ us vs, ts = us ++ vs ∧ us.map Token.word = xs.map Token.word ∧
      vs.map Token.word = ys.map Token.word :=
  List.map_eq_append_iff.1 (h.trans List.map_append)

/-- What is derivable depends only on the words that it takes. -/
theorem Derives.relocate {part : Part} {ts rest : List Token} {t : Tree}
    (h : Derives part ts t rest) :
    ∃ front, ts = front ++ rest ∧ ∀ {front'}, front'.map Token.word = front.map Token.word →
      ∀ rest', Derives part (front' ++ rest') t rest' := by
  induction h with
  | @int tok rest hkind =>
    refine ⟨[tok], rfl, fun {front'} hfront rest' => ?_⟩
    obtain ⟨tok', us, rfl, hkind', hlexeme, hus⟩ := exists_token_of_map_word hfront
    obtain rfl := List.map_eq_nil_iff.1 hus
    have hdecimal : tok'.decimal = tok.decimal := by rw [Token.decimal, hlexeme, Token.decimal]
    rw [← hdecimal]
    exact .int (hkind'.trans hkind)
  | @paren opening closing ts rest t hopening _ hclosing ih =>
    obtain ⟨inside, heq, hsum⟩ := ih
    refine ⟨opening :: (inside ++ [closing]), by simp [heq], fun {front'} hfront rest' => ?_⟩
    obtain ⟨opening', us, rfl, hkind, -, hus⟩ := exists_token_of_map_word hfront
    obtain ⟨inside', vs, rfl, hinside, hvs⟩ := exists_append_of_words hus
    obtain ⟨closing', ws, rfl, hkind', -, hws⟩ := exists_token_of_map_word hvs
    obtain rfl := List.map_eq_nil_iff.1 hws
    have hsum' := hsum hinside (closing' :: rest')
    rw [List.cons_append, List.append_assoc, List.singleton_append]
    exact .paren (hkind.trans hopening) hsum' (hkind'.trans hclosing)
  | product _ _ ihfirst ihafter =>
    obtain ⟨back, rfl, hafter⟩ := ihafter
    obtain ⟨front, rfl, hfirst⟩ := ihfirst
    refine ⟨front ++ back, by simp, fun {front'} hfront rest' => ?_⟩
    obtain ⟨us, vs, rfl, hus, hvs⟩ := exists_append_of_words hfront
    rw [List.append_assoc]
    exact .product (hfirst hus _) (hafter hvs rest')
  | sum _ _ ihfirst ihafter =>
    obtain ⟨back, rfl, hafter⟩ := ihafter
    obtain ⟨front, rfl, hfirst⟩ := ihfirst
    refine ⟨front ++ back, by simp, fun {front'} hfront rest' => ?_⟩
    obtain ⟨us, vs, rfl, hus, hvs⟩ := exists_append_of_words hfront
    rw [List.append_assoc]
    exact .sum (hfirst hus _) (hafter hvs rest')
  | @plus sign _ _ _ _ _ hsign _ _ ihfirst ihafter =>
    obtain ⟨back, rfl, hafter⟩ := ihafter
    obtain ⟨front, rfl, hfirst⟩ := ihfirst
    refine ⟨sign :: (front ++ back), by simp, fun {front'} hfront rest' => ?_⟩
    obtain ⟨sign', ws, rfl, hkind, -, hws⟩ := exists_token_of_map_word hfront
    obtain ⟨us, vs, rfl, hus, hvs⟩ := exists_append_of_words hws
    rw [List.cons_append, List.append_assoc]
    exact .plus (hkind.trans hsign) (hfirst hus _) (hafter hvs rest')
  | stop =>
    refine ⟨[], rfl, fun {front'} hfront rest' => ?_⟩
    obtain rfl := List.map_eq_nil_iff.1 hfront
    exact .stop
  | @more _ _ sign _ _ _ _ _ _ hsign _ _ ihitem ihafter =>
    obtain ⟨back, rfl, hafter⟩ := ihafter
    obtain ⟨front, rfl, hitem⟩ := ihitem
    refine ⟨sign :: (front ++ back), by simp, fun {front'} hfront rest' => ?_⟩
    obtain ⟨sign', ws, rfl, hkind, -, hws⟩ := exists_token_of_map_word hfront
    obtain ⟨us, vs, rfl, hus, hvs⟩ := exists_append_of_words hws
    rw [List.cons_append, List.append_assoc]
    exact .more (hkind ▸ hsign) (hitem hus _) (hafter hvs rest')

/-- An operand of a text with a value parses on its own, and has this value. -/
theorem parse_of_operand {text : String} {xs ys zs segment rest : List Token} {t : Tree}
    {v : Rat} (htokens : tokens text = xs ++ ys ++ zs) (hvisible : visible ys = segment)
    (h : Derives .operand (segment ++ rest) t rest) (hvalue : t.eval = some v) :
    Derives .operand (visibleTokens (String.ofList (spelling ys))) t [] ∧
      ∃ e, Expr.parse (String.ofList (spelling ys)) = .ok e ∧ e.value = some v := by
  obtain ⟨front, heq, hderives⟩ := h.relocate
  obtain rfl := List.append_cancel_right heq
  have hwords := map_word_visibleTokens_spelling htokens
  rw [hvisible] at hwords
  have hoperand := hderives hwords []
  rw [List.append_nil] at hoperand
  refine ⟨hoperand, t.canon, ?_, Tree.value_canon hvalue⟩
  exact Expr.parse_of_derives (.sum (.product hoperand .stop) .stop) (by rw [hvalue]; rfl)

/-! ## Single characters -/

/-- A token of a kind that makes no runs has a single character, of its kind. -/
theorem exists_char_of_mem_tokens {text : String} {tok : Token} (h : tok ∈ tokens text)
    (hrun : tok.kind.isRun = false) :
    ∃ c, tok.lexeme.toList = [c] ∧ Kind.ofChar c = tok.kind := by
  have hgroup := (grouped_runs text.toList).isGroup _ (mem_runs_of_mem_placeFrom h)
  obtain ⟨c, hc⟩ := hgroup.single hrun
  have hchars : tok.lexeme.toList = [c] := hc
  exact ⟨c, hchars, hgroup.ofChar_eq c (by simp [hchars])⟩

end TwentyFour
