import TwentyFour.Error
import TwentyFour.Token

/-!
# Token streams

A stream reads the tokens of a text one by one and skips the blank ones, with room to give one token
back.  It knows what it has handed out and what is still to come, and it counts the tokens that
would get lost if a token was given back while another one was waiting.

A character that belongs nowhere is reported when it is reached, and reading goes on behind it.
`next_cases` says all that taking a token can do, from the items that are still to come.
-/

namespace TwentyFour

/-- A text that is read token by token. -/
structure TokenStream where
  /-- The text. -/
  source : String
  /-- The tokens handed out and not given back, the latest first. -/
  taken : List Token
  /-- A token that was given back and comes next. -/
  buffer : Option Token
  /-- The tokens that have not been reached, blanks included. -/
  unread : List Token
  /-- How many waiting tokens were replaced by another one that was given back. -/
  lost : Nat
deriving DecidableEq, Repr

namespace TokenStream

/-- A stream at the start of a text. -/
def ofSource (source : String) : TokenStream :=
  ⟨source, [], none, tokens source, 0⟩

/-- The tokens still to come, without the blanks between them. -/
def items (s : TokenStream) : List Token :=
  s.buffer.toList ++ visible s.unread

/-- The number of tokens still to come. -/
def size (s : TokenStream) : Nat :=
  s.items.length

/-- The text from a byte on. -/
def remainderFrom (s : TokenStream) (start : Nat) : String :=
  suffixFrom s.source start

/-- The empty span at the end of the text. -/
def endSpan (s : TokenStream) : Span :=
  ⟨byteLength s.source.toList, byteLength s.source.toList⟩

/-- The first character of a token; a token is never empty. -/
def firstChar (t : Token) : Char :=
  t.lexeme.toList.headD '\x00'

/-- The error for a character that belongs nowhere. -/
def invalid (s : TokenStream) (t : Token) : Error :=
  .about t.span (.invalidCharacter (firstChar t) (s.remainderFrom t.span.start))

/-- Takes the next token, or nothing at the end.  Blanks in front of it are skipped. -/
def next (s : TokenStream) : Except Error (Option Token) × TokenStream :=
  match s.buffer with
  | some t => (.ok (some t), { s with buffer := none, taken := t :: s.taken })
  | none =>
    match s.unread.dropWhile (·.kind = .blank) with
    | [] => (.ok none, { s with unread := [] })
    | t :: rest =>
      if t.kind = .symbol then
        (.error (s.invalid t), { s with unread := rest })
      else
        (.ok (some t), { s with unread := rest, taken := t :: s.taken })

/-- Gives back the token that was taken last. -/
def pushBack (s : TokenStream) (t : Token) : TokenStream :=
  { s with
    buffer := some t
    taken := s.taken.tail
    lost := s.lost + s.buffer.toList.length }

/-- Looks at the next token without taking it. -/
def peek (s : TokenStream) : Except Error (Option Token) × TokenStream :=
  match s.next with
  | (.ok (some t), rest) => (.ok (some t), rest.pushBack t)
  | other => other

/-! ## Blanks -/

theorem visible_dropWhile_blank (ts : List Token) :
    visible (ts.dropWhile (·.kind = .blank)) = visible ts := by
  induction ts with
  | nil => rfl
  | cons t ts ih =>
    rw [List.dropWhile_cons]
    split
    next hblank => simpa [visible, show t.kind = .blank by simpa using hblank] using ih
    · rfl

/-- Behind the blanks stands the first visible token, or nothing. -/
theorem visible_eq_cons_of_dropWhile {ts rest : List Token} {t : Token}
    (h : ts.dropWhile (·.kind = .blank) = t :: rest) : visible ts = t :: visible rest := by
  have hseen : t.kind ≠ .blank := by
    have hhead := List.head?_dropWhile_not (fun t : Token => decide (t.kind = .blank)) ts
    rw [h] at hhead
    simpa using hhead
  rw [← visible_dropWhile_blank, h]
  simp [visible, hseen]

theorem visible_eq_nil_of_dropWhile {ts : List Token}
    (h : ts.dropWhile (·.kind = .blank) = []) : visible ts = [] := by
  rw [← visible_dropWhile_blank, h]
  rfl

/-! ## What is still to come -/

@[simp] theorem items_ofSource (source : String) :
    (ofSource source).items = visibleTokens source := rfl

theorem items_of_buffer_none {s : TokenStream} (h : s.buffer = none) :
    s.items = visible s.unread := by
  rw [items, h]
  rfl

/-- Taking a token gives the one that was given back; or nothing, at the end; or it fails at a
character that belongs nowhere, and passes it; or it gives the next visible token. -/
theorem next_cases (s : TokenStream) :
    (∃ t, s.buffer = some t ∧
      s.next = (.ok (some t), { s with buffer := none, taken := t :: s.taken })) ∨
    (s.buffer = none ∧ s.items = [] ∧ s.next = (.ok none, { s with unread := [] })) ∨
    (∃ t rest, s.buffer = none ∧ s.items = t :: visible rest ∧ t.kind = .symbol ∧
      s.next = (.error (s.invalid t), { s with unread := rest })) ∨
    (∃ t rest, s.buffer = none ∧ s.items = t :: visible rest ∧ t.kind ≠ .symbol ∧
      s.next = (.ok (some t), { s with unread := rest, taken := t :: s.taken })) := by
  cases hheld : s.buffer with
  | some t => exact .inl ⟨t, rfl, by simp [next, hheld]⟩
  | none =>
    rw [items_of_buffer_none hheld]
    cases hbehind : s.unread.dropWhile (·.kind = .blank) with
    | nil =>
      have hended := visible_eq_nil_of_dropWhile hbehind
      exact .inr (.inl ⟨rfl, hended, by simp [next, hheld, hbehind]⟩)
    | cons t rest =>
      have hseen := visible_eq_cons_of_dropWhile hbehind
      by_cases hsymbol : t.kind = .symbol
      · exact .inr (.inr (.inl
          ⟨t, rest, rfl, hseen, hsymbol, by simp [next, hheld, hbehind, hsymbol]⟩))
      · exact .inr (.inr (.inr
          ⟨t, rest, rfl, hseen, hsymbol, by simp [next, hheld, hbehind, hsymbol]⟩))

/-- Taking a token removes it from those still to come, and nothing waits any more. -/
theorem next_ok_some {s rest : TokenStream} {t : Token} (h : s.next = (.ok (some t), rest)) :
    s.items = t :: rest.items ∧ rest.buffer = none := by
  rcases s.next_cases with ⟨t', hheld, heq⟩ | ⟨-, -, heq⟩ | ⟨t', after, -, -, -, heq⟩ |
      ⟨t', after, hheld, hseen, -, heq⟩ <;> rw [heq] at h
  · obtain ⟨⟨⟩, rfl⟩ := h
    simp [items, hheld]
  · simp at h
  · simp at h
  · obtain ⟨⟨⟩, rfl⟩ := h
    refine ⟨?_, hheld⟩
    rw [hseen, items, hheld]
    rfl

/-- Nothing comes at the end only, and then nothing is left behind. -/
theorem next_ok_none {s rest : TokenStream} (h : s.next = (.ok none, rest)) :
    s.items = [] ∧ rest = { s with unread := [] } := by
  rcases s.next_cases with ⟨t, -, heq⟩ | ⟨-, hended, heq⟩ | ⟨t, after, -, -, -, heq⟩ |
      ⟨t, after, -, -, -, heq⟩ <;> rw [heq] at h
  · simp at h
  · exact ⟨hended, (Prod.mk.inj h).2.symm⟩
  · simp at h
  · simp at h

theorem items_next_ok_none {s rest : TokenStream} (h : s.next = (.ok none, rest)) :
    rest.items = s.items := by
  obtain ⟨hended, rfl⟩ := next_ok_none h
  have hheld := (List.append_eq_nil_iff.1 hended).1
  rw [hended, items, hheld]
  rfl

/-- A token that is given back is the next one. -/
theorem items_pushBack {s : TokenStream} (h : s.buffer = none) (t : Token) :
    (s.pushBack t).items = t :: s.items := by
  simp [items, pushBack, h]

theorem size_next {s rest : TokenStream} {t : Token} (h : s.next = (.ok (some t), rest)) :
    rest.size + 1 = s.size := by
  simp [size, (next_ok_some h).1]

theorem size_next_none {s rest : TokenStream} (h : s.next = (.ok none, rest)) :
    rest.size = s.size := by
  rw [size, size, items_next_ok_none h]

theorem size_pushBack_next {s rest : TokenStream} {t : Token}
    (h : s.next = (.ok (some t), rest)) : (rest.pushBack t).size = s.size := by
  simp [size, items_pushBack (next_ok_some h).2, (next_ok_some h).1]

theorem size_peek {s rest : TokenStream} {t : Option Token} (h : s.peek = (.ok t, rest)) :
    rest.size = s.size := by
  unfold peek at h
  split at h
  next htaken =>
    obtain ⟨-, rfl⟩ := h
    exact size_pushBack_next htaken
  next hne =>
    cases t with
    | none => exact size_next_none h
    | some t => exact absurd h (hne t rest)

end TokenStream

end TwentyFour
