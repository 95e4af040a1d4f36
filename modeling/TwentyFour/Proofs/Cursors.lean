import TwentyFour.Proofs.Segments

/-!
# Streams and lists of items

A stream keeps the tokens that are still to come in two places: one that was given back, and
the rest of the text.  A caller that gives back the token it took last, and nothing else,
cannot tell it from a list.

* `Cursor.run` serves the requests of a caller, for streams and for lists alike.  It has no
  result if the caller gives back a token that it may not give back.
* `itemCursor` is the list of the visible tokens of a text.  A character that belongs nowhere
  is one of them, and it is gone as soon as it is seen.
* `TokenStream.Follows` is what holds of a stream while it is read.  `follows_next`,
  `follows_peek` and `follows_pushBack` say that each request keeps it and does to the stream
  what it does to the list.
* `run_eq_run_items` says that a run on a stream is a run on its items.
-/

namespace TwentyFour

/-! ## Cursors -/

/-- What reading answers: a token, nothing at the end, or an error. -/
abbrev Answer := Except Error (Option Token)

/-- The token that was handed out. -/
def Answer.token? : Answer → Option Token
  | .ok t => t
  | .error _ => none

/-- What a caller asks for.  `back` gives back the token of the latest `next`. -/
inductive Request where
  | next
  | peek
  | back
deriving DecidableEq, Repr

/-- Something that tokens are read from. -/
structure Cursor (σ : Type) where
  next : σ → Answer × σ
  peek : σ → Answer × σ
  pushBack : σ → Token → σ

/-- The answers to the requests of a caller, and what is left behind.  The token that may be
given back is the one of the latest `next`, once, and only if nothing was looked at since. -/
def Cursor.run {σ : Type} (c : Cursor σ) :
    List Request → Option Token → σ → Option (List Answer × σ)
  | [], _, s => some ([], s)
  | .next :: requests, _, s =>
    (c.run requests (c.next s).1.token? (c.next s).2).map fun (answers, last) =>
      ((c.next s).1 :: answers, last)
  | .peek :: requests, _, s =>
    (c.run requests none (c.peek s).2).map fun (answers, last) =>
      ((c.peek s).1 :: answers, last)
  | .back :: requests, some t, s => c.run requests none (c.pushBack s t)
  | .back :: _, none, _ => none

/-- A stream is a cursor. -/
def TokenStream.cursor : Cursor TokenStream :=
  ⟨TokenStream.next, TokenStream.peek, TokenStream.pushBack⟩

/-- What taking an item of a text answers: the item, or the error for a character that
belongs nowhere. -/
def itemAnswer (text : String) (t : Token) : Answer :=
  if t.kind = .symbol then
    .error (.about t.span
      (.invalidCharacter (TokenStream.firstChar t) (suffixFrom text t.span.start)))
  else
    .ok (some t)

/-- A list of items of a text is a cursor. -/
def itemCursor (text : String) : Cursor (List Token) where
  next
    | [] => (.ok none, [])
    | t :: ts => (itemAnswer text t, ts)
  peek
    | [] => (.ok none, [])
    | t :: ts => (itemAnswer text t, if t.kind = .symbol then ts else t :: ts)
  pushBack ts t := t :: ts

/-! ## Lists of items -/

section Items

variable {text : String} {requests : List Request} {held : Option Token}
  {t : Token} {ts rest : List Token} {answers : List Answer}

theorem itemAnswer_of_ne_symbol (h : t.kind ≠ .symbol) (text : String) :
    itemAnswer text t = .ok (some t) :=
  if_neg h

theorem itemAnswer_eq_ok {taken : Option Token}
    (h : itemAnswer text t = .ok taken) : t.kind ≠ .symbol ∧ taken = some t := by
  unfold itemAnswer at h
  split at h
  · simp at h
  next hkind => exact ⟨hkind, (Except.ok.inj h).symm⟩

/-- Looking at a token is taking it and giving it back. -/
theorem peek_of_next_eq_ok_some (h : (itemCursor text).next ts = (.ok (some t), rest)) :
    (itemCursor text).peek ts = (.ok (some t), t :: rest) := by
  cases ts with
  | nil => simp [itemCursor] at h
  | cons first ts =>
    obtain ⟨hanswer, rfl⟩ := Prod.mk.inj h
    obtain ⟨hkind, heq⟩ := itemAnswer_eq_ok hanswer
    obtain rfl := Option.some.inj heq
    exact Prod.ext hanswer (if_neg hkind)

theorem peek_of_next_ne_ok_some
    (h : ∀ t rest, (itemCursor text).next ts ≠ (.ok (some t), rest)) :
    (itemCursor text).peek ts = (itemCursor text).next ts := by
  cases ts with
  | nil => rfl
  | cons t ts =>
    by_cases hkind : t.kind = .symbol
    · exact Prod.ext rfl (if_pos hkind)
    · exact (h t ts (Prod.ext (itemAnswer_of_ne_symbol hkind text) rfl)).elim

/-- At the end every answer is that nothing comes. -/
theorem eq_ok_none_of_run_nil
    (h : (itemCursor text).run requests none [] = some (answers, rest)) :
    ∀ a ∈ answers, a = .ok none := by
  induction requests generalizing answers with
  | nil =>
    obtain ⟨rfl, -⟩ := Prod.mk.inj (Option.some.inj h)
    simp
  | cons request requests ih =>
    cases request with
    | next | peek =>
      obtain ⟨⟨later, last⟩, hlater, heq⟩ := Option.map_eq_some_iff.1 h
      obtain ⟨rfl, rfl⟩ := Prod.mk.inj heq
      exact List.forall_mem_cons.2 ⟨rfl, ih hlater⟩
    | back => simp [Cursor.run] at h

/-- After the end was reported, it is reported for ever. -/
theorem eq_ok_none_of_run {before after : List Answer}
    (h : (itemCursor text).run requests held ts =
      some (before ++ .ok none :: after, rest)) :
    ∀ a ∈ after, a = .ok none := by
  induction requests generalizing held ts before with
  | nil => simp [Cursor.run] at h
  | cons request requests ih =>
    cases request with
    | next | peek =>
      obtain ⟨⟨later, last⟩, hlater, heq⟩ := Option.map_eq_some_iff.1 h
      obtain ⟨hanswers, rfl⟩ := Prod.mk.inj heq
      cases before with
      | cons b before =>
        obtain ⟨-, rfl⟩ := List.cons.inj hanswers
        exact ih hlater
      | nil =>
        obtain ⟨hfirst, rfl⟩ := List.cons.inj hanswers
        cases ts with
        | nil => exact eq_ok_none_of_run_nil hlater
        | cons t ts => simpa using (itemAnswer_eq_ok hfirst).2
    | back =>
      cases held with
      | none => simp [Cursor.run] at h
      | some t => exact ih h

end Items

/-! ## One request -/

namespace TokenStream

/-- The stream reads `text`, has lost nothing, and can be given back the token `held`. -/
structure Follows (text : String) (held : Option Token) (s : TokenStream) : Prop where
  source_eq : s.source = text
  kind_of_buffer : ∀ t ∈ s.buffer, t.kind ≠ .symbol
  kind_of_held : ∀ t ∈ held, t.kind ≠ .symbol
  buffer_of_held : ∀ t ∈ held, s.buffer = none
  lost_eq : s.lost = 0
  /-- The items are the ones that were passed, the one that can be given back, and those
  still to come. -/
  items_eq : ∃ passed, visibleTokens text = passed ++ held.toList ++ s.items ∧
    s.taken.reverse = passed.filter (fun t => t.kind ≠ .symbol) ++ held.toList

variable {text : String} {held : Option Token} {s s' : TokenStream} {t : Token}

theorem follows_ofSource (text : String) : (ofSource text).Follows text none where
  source_eq := rfl
  kind_of_buffer := by simp [ofSource]
  kind_of_held := by simp
  buffer_of_held := by simp
  lost_eq := rfl
  items_eq := ⟨[], rfl, rfl⟩

namespace Follows

/-- A token that was not given back is passed. -/
theorem release (h : s.Follows text held) : s.Follows text none where
  source_eq := h.source_eq
  kind_of_buffer := h.kind_of_buffer
  kind_of_held := by simp
  buffer_of_held := by simp
  lost_eq := h.lost_eq
  items_eq := by
    obtain ⟨passed, hitems, htaken⟩ := h.items_eq
    refine ⟨passed ++ held.toList, by simpa using hitems, ?_⟩
    have hheld : held.toList.filter (fun t => t.kind ≠ .symbol) = held.toList :=
      List.filter_eq_self.2 fun t ht => by simpa using h.kind_of_held t (by simpa using ht)
    rw [htaken, List.filter_append, hheld]
    simp

/-- A token that is taken can be given back. -/
theorem take (h : s.Follows text held) (hitems : s.items = t :: s'.items)
    (hkind : t.kind ≠ .symbol) (hsource : s'.source = s.source) (hbuffer : s'.buffer = none)
    (htaken : s'.taken = t :: s.taken) (hlost : s'.lost = s.lost) :
    s'.Follows text (some t) where
  source_eq := hsource.trans h.source_eq
  kind_of_buffer := by simp [hbuffer]
  kind_of_held := by simpa using hkind
  buffer_of_held _ _ := hbuffer
  lost_eq := hlost.trans h.lost_eq
  items_eq := by
    obtain ⟨passed, hall, hpassed⟩ := h.release.items_eq
    refine ⟨passed, ?_, ?_⟩
    · rw [hall, hitems]
      simp
    · rw [htaken, List.reverse_cons, hpassed]
      simp

end Follows

theorem itemAnswer_of_symbol (h : t.kind = .symbol) (hsource : s.source = text) :
    itemAnswer text t = .error (s.invalid t) := by
  rw [itemAnswer, if_pos h, invalid, remainderFrom, hsource]

/-- Taking a token takes the first item. -/
theorem follows_next (h : s.Follows text held) :
    (itemCursor text).next s.items = (s.next.1, s.next.2.items) ∧
      s.next.2.Follows text (Answer.token? s.next.1) := by
  rcases s.next_cases with ⟨t, hbuffer, hnext⟩ | ⟨hbuffer, hitems, hnext⟩ |
      ⟨t, rest, hbuffer, hitems, hkind, hnext⟩ | ⟨t, rest, hbuffer, hitems, hkind, hnext⟩ <;>
    rw [hnext]
  -- the token that was given back
  · have hkind := h.kind_of_buffer t hbuffer
    have hitems : s.items = t :: visible s.unread := by
      rw [items, hbuffer]
      rfl
    refine ⟨?_, h.take hitems hkind rfl rfl rfl rfl⟩
    rw [hitems, ← itemAnswer_of_ne_symbol hkind text]
    rfl
  -- the end: the blanks at it are dropped, and no item is
  · have hrest : { s with unread := [] : TokenStream }.items = [] := by
      rw [items, hbuffer]
      rfl
    refine ⟨by rw [hitems, hrest]; rfl, ?_⟩
    exact { h.release with items_eq := by rw [hrest, ← hitems]; exact h.release.items_eq }
  -- a character that belongs nowhere is passed, but not taken
  · have hrest : { s with unread := rest : TokenStream }.items = visible rest :=
      items_of_buffer_none hbuffer
    refine ⟨?_, ?_⟩
    · rw [hitems, hrest, ← itemAnswer_of_symbol hkind h.source_eq]
      rfl
    · obtain ⟨passed, hall, htaken⟩ := h.release.items_eq
      refine { h.release with items_eq := ⟨passed ++ [t], ?_, ?_⟩ }
      · rw [hall, hrest, hitems]
        simp [Answer.token?]
      · simpa [List.filter_append, hkind, Answer.token?] using htaken
  -- the next token of the text
  · have hrest : { s with unread := rest, taken := t :: s.taken : TokenStream }.items =
        visible rest := items_of_buffer_none hbuffer
    refine ⟨?_, h.take (hitems.trans (by rw [hrest])) hkind rfl hbuffer rfl rfl⟩
    rw [hitems, hrest, ← itemAnswer_of_ne_symbol hkind text]
    rfl

/-- Giving back a token makes it the first item again. -/
theorem follows_pushBack (h : s.Follows text (some t)) :
    (itemCursor text).pushBack s.items t = (s.pushBack t).items ∧
      (s.pushBack t).Follows text none := by
  have hbuffer : s.buffer = none := h.buffer_of_held t rfl
  have hitems : (s.pushBack t).items = t :: s.items := items_pushBack hbuffer t
  refine ⟨hitems.symm, ?_⟩
  obtain ⟨passed, hall, htaken⟩ := h.items_eq
  refine ⟨h.source_eq, ?_, by simp, by simp, ?_, passed, ?_, ?_⟩
  · simpa [pushBack] using h.kind_of_held t rfl
  · simp [pushBack, hbuffer, h.lost_eq]
  · rw [hall, hitems]
    simp
  · have htail : s.taken = t :: (passed.filter (fun t => t.kind ≠ .symbol)).reverse := by
      rw [← List.reverse_reverse s.taken, htaken]
      simp
    simp [pushBack, htail]

/-- Looking at a token leaves it the first item; a character that belongs nowhere is passed. -/
theorem follows_peek (h : s.Follows text held) :
    (itemCursor text).peek s.items = (s.peek.1, s.peek.2.items) ∧
      s.peek.2.Follows text none := by
  obtain ⟨hitems, hfollows⟩ := follows_next h
  unfold peek
  split
  next t rest hnext =>
    rw [hnext] at hitems hfollows
    obtain ⟨hback, hkept⟩ := follows_pushBack hfollows
    exact ⟨by rw [← hback, peek_of_next_eq_ok_some hitems]; rfl, hkept⟩
  next hne =>
    refine ⟨?_, hfollows.release⟩
    rw [← hitems]
    refine peek_of_next_ne_ok_some fun t rest hnext => hne t s.next.2 ?_
    rw [hitems] at hnext
    exact Prod.ext (Prod.mk.inj hnext).1 rfl

/-! ## All requests -/

/-- A character that belongs nowhere is an item of its own. -/
theorem lexeme_of_symbol (ht : t ∈ visibleTokens text) (h : t.kind = .symbol) :
    t.lexeme.toList = [firstChar t] := by
  obtain ⟨c, hc, -⟩ := exists_char_of_mem_tokens (mem_visible.1 ht).1 (by rw [h]; rfl)
  rw [firstChar, hc]
  rfl

/-- A run on a stream is a run on its items. -/
theorem run_cursor (requests : List Request) (h : s.Follows text held) :
    (cursor.run requests held s).map (fun (answers, last) => (answers, last.items)) =
      (itemCursor text).run requests held s.items := by
  induction requests generalizing held s with
  | nil => rfl
  | cons request requests ih =>
    cases request with
    | next =>
      obtain ⟨hitems, hkept⟩ := follows_next h
      rw [Cursor.run, Cursor.run, hitems, ← ih hkept, Option.map_map, Option.map_map]
      rfl
    | peek =>
      obtain ⟨hitems, hkept⟩ := follows_peek h
      rw [Cursor.run, Cursor.run, hitems, ← ih hkept, Option.map_map, Option.map_map]
      rfl
    | back =>
      cases held with
      | none => rfl
      | some t =>
        obtain ⟨hitems, hkept⟩ := follows_pushBack h
        rw [Cursor.run, Cursor.run, hitems, ← ih hkept]
        rfl

theorem follows_of_run {requests : List Request} {answers : List Answer}
    (h : s.Follows text held) (hrun : cursor.run requests held s = some (answers, s')) :
    s'.Follows text none := by
  induction requests generalizing held s answers with
  | nil =>
    obtain ⟨-, rfl⟩ := Prod.mk.inj (Option.some.inj hrun)
    exact h.release
  | cons request requests ih =>
    cases request with
    | next =>
      obtain ⟨⟨later, last⟩, hlater, heq⟩ := Option.map_eq_some_iff.1 hrun
      obtain ⟨-, rfl⟩ := Prod.mk.inj heq
      exact ih (follows_next h).2 hlater
    | peek =>
      obtain ⟨⟨later, last⟩, hlater, heq⟩ := Option.map_eq_some_iff.1 hrun
      obtain ⟨-, rfl⟩ := Prod.mk.inj heq
      exact ih (follows_peek h).2 hlater
    | back =>
      cases held with
      | none => simp [Cursor.run] at hrun
      | some t => exact ih (follows_pushBack h).2 hrun

/-- Reading a text gives what reading the list of its items gives, tokens and single
characters that belong nowhere, whatever is asked for, as long as only the token of the
latest `next` is given back, once and with nothing looked at since.  No token is ever
replaced in the buffer; the tokens handed out, with the characters that belong nowhere
between them, and those still to come are the items in order; and once the end is reported,
it is reported for ever. -/
theorem run_eq_run_items (text : String) (requests : List Request) :
    (∀ t ∈ visibleTokens text, t.kind = .symbol → t.lexeme.toList = [firstChar t]) ∧
    (cursor.run requests none (ofSource text)).map
        (fun (answers, last) => (answers, last.items)) =
      (itemCursor text).run requests none (visibleTokens text) ∧
    ∀ answers last, cursor.run requests none (ofSource text) = some (answers, last) →
      last.lost = 0 ∧
      (∃ passed, visibleTokens text = passed ++ last.items ∧
        last.taken.reverse = passed.filter (fun t => t.kind ≠ .symbol)) ∧
      ∀ before after, answers = before ++ .ok none :: after → ∀ a ∈ after, a = .ok none := by
  have hstart := follows_ofSource text
  have hitems := run_cursor requests hstart
  refine ⟨fun t => lexeme_of_symbol, hitems, fun answers last hrun => ?_⟩
  have hend := follows_of_run hstart hrun
  refine ⟨hend.lost_eq, by simpa using hend.items_eq, ?_⟩
  rintro before after rfl
  rw [hrun, Option.map_some] at hitems
  exact eq_ok_none_of_run hitems.symm

/-- In `8 x 3` the first token can be given back, and looking at `x` passes it. -/
theorem run_eq_run_items_eight_x_three :
    ∃ answers last,
      cursor.run [.next, .back, .peek, .next, .peek, .next, .next, .peek] none
        (ofSource "8 x 3") = some (answers, last) ∧
      answers.map (fun a => a.token?.map Token.lexeme) =
        [some "8", some "8", some "8", none, some "3", none, none] ∧
      last.lost = 0 ∧
      (∃ passed, visibleTokens "8 x 3" = passed ++ last.items ∧
        last.taken.reverse = passed.filter (fun t => t.kind ≠ .symbol)) ∧
      ∀ before after, answers = before ++ .ok none :: after → ∀ a ∈ after, a = .ok none := by
  have hread : (cursor.run [.next, .back, .peek, .next, .peek, .next, .next, .peek] none
      (ofSource "8 x 3")).map (fun (answers, _) =>
        answers.map fun a => a.token?.map Token.lexeme) =
      some [some "8", some "8", some "8", none, some "3", none, none] := by
    decide +kernel
  obtain ⟨⟨answers, last⟩, hrun, hanswers⟩ := Option.map_eq_some_iff.1 hread
  exact ⟨answers, last, hrun, hanswers, (run_eq_run_items _ _).2.2 answers last hrun⟩

end TokenStream

end TwentyFour
