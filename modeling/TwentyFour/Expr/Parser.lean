import TwentyFour.Expr.Join
import TwentyFour.Text.Integer
import TwentyFour.Token.Stream

/-!
# Reading an expression

A text is read by recursive descent.  A sum is products joined by `+` and `-`, with an optional `+`
in front; a product is operands joined by the signs of multiplication and division; an operand is a
number or a sum in parentheses.  Operations are applied as written, one after the other, so no
syntax tree is built, and dividing by zero is an error at the divisor.

Every function takes tokens up to the first one that belongs to an enclosing level, and gives that
one back.  A function that succeeds has taken at least one token, which is what makes the recursion
end; `Step` carries this fact with the result.
-/

namespace TwentyFour

/-- The state of reading: the tokens, and the number of parentheses that are open. -/
structure Parser where
  tokens : TokenStream
  depth : Nat
deriving DecidableEq, Repr

/-- The outcome of reading a part of a text.  On success fewer than `limit` tokens remain. -/
inductive Step (limit : Nat) (α : Type) where
  | done (result : α) (rest : Parser) (hshorter : rest.tokens.size < limit)
  | fail (error : Error) (rest : Parser)

/-- Forgets some of what is known about the remaining tokens. -/
def Step.weaken {m n : Nat} {α : Type} (h : m ≤ n) : Step m α → Step n α
  | .done result rest hshorter => .done result rest (Nat.lt_of_lt_of_le hshorter h)
  | .fail error rest => .fail error rest

/-- Whether a token continues a compound of class `cls`, and if so in which direction. -/
def Kind.direction? (cls : OpClass) (kind : Kind) : Option Bool :=
  match cls, kind with
  | .additive, .add => some false
  | .additive, .sub => some true
  | .multiplicative, .mul => some false
  | .multiplicative, .div => some true
  | _, _ => none

namespace Parser

/-- Reading at the start of a text. -/
def ofSource (source : String) : Parser :=
  ⟨.ofSource source, 0⟩

/-- The number of tokens still to come. -/
def size (p : Parser) : Nat :=
  p.tokens.size

/-- The text from the start of a span on. -/
def remainder (p : Parser) (span : Span) : String :=
  p.tokens.remainderFrom span.start

/-- Takes the next token. -/
def next (p : Parser) : Except Error (Option Token) × Parser :=
  match p.tokens.next with
  | (outcome, rest) => (outcome, { p with tokens := rest })

/-- Looks at the next token. -/
def peek (p : Parser) : Except Error (Option Token) × Parser :=
  match p.tokens.peek with
  | (outcome, rest) => (outcome, { p with tokens := rest })

/-- Gives back the token that was taken last. -/
def pushBack (p : Parser) (t : Token) : Parser :=
  { p with tokens := p.tokens.pushBack t }

/-- Enters a parenthesis. -/
def enter (p : Parser) : Parser :=
  { p with depth := p.depth + 1 }

/-- Leaves a parenthesis. -/
def leave (p : Parser) : Parser :=
  { p with depth := p.depth - 1 }

/-- The error for an opening parenthesis without a partner. -/
def unclosed (p : Parser) (opening : Token) : Error :=
  .about opening.span (.unclosedParenthesis true (p.remainder opening.span))

/-- Takes a `+` if it comes next. -/
def skipPlus (p : Parser) : Except Error Unit × Parser :=
  match p.next with
  | (.error error, rest) => (.error error, rest)
  | (.ok none, rest) => (.ok (), rest)
  | (.ok (some t), rest) => (.ok (), if t.kind = .add then rest else rest.pushBack t)

/-! ## Fewer tokens remain -/

theorem next_eq {p rest : Parser} {outcome : Except Error (Option Token)}
    (h : p.next = (outcome, rest)) :
    p.tokens.next = (outcome, rest.tokens) ∧ rest.depth = p.depth := by
  unfold next at h
  split at h
  next htaken =>
    obtain ⟨rfl, rfl⟩ := h
    exact ⟨htaken, rfl⟩

theorem peek_eq {p rest : Parser} {outcome : Except Error (Option Token)}
    (h : p.peek = (outcome, rest)) :
    p.tokens.peek = (outcome, rest.tokens) ∧ rest.depth = p.depth := by
  unfold peek at h
  split at h
  next hseen =>
    obtain ⟨rfl, rfl⟩ := h
    exact ⟨hseen, rfl⟩

theorem size_next {p rest : Parser} {t : Token} (h : p.next = (.ok (some t), rest)) :
    rest.size + 1 = p.size :=
  TokenStream.size_next (next_eq h).1

theorem size_next_none {p rest : Parser} (h : p.next = (.ok none, rest)) : rest.size = p.size :=
  TokenStream.size_next_none (next_eq h).1

theorem size_pushBack_next {p rest : Parser} {t : Token} (h : p.next = (.ok (some t), rest)) :
    (rest.pushBack t).size = p.size :=
  TokenStream.size_pushBack_next (next_eq h).1

theorem size_peek {p rest : Parser} {t : Option Token} (h : p.peek = (.ok t, rest)) :
    rest.size = p.size :=
  TokenStream.size_peek (peek_eq h).1

@[simp] theorem size_enter (p : Parser) : p.enter.size = p.size := rfl

@[simp] theorem size_leave (p : Parser) : p.leave.size = p.size := rfl

theorem size_skipPlus {p rest : Parser} (h : p.skipPlus = (.ok (), rest)) : rest.size ≤ p.size := by
  unfold skipPlus at h
  split at h
  · simp at h
  next hended =>
    obtain ⟨-, rfl⟩ := h
    exact Nat.le_of_eq (size_next_none hended)
  next htaken =>
    obtain ⟨-, rfl⟩ := h
    split
    · have := size_next htaken
      omega
    · exact Nat.le_of_eq (size_pushBack_next htaken)

/-! ## The grammar -/

mutual

/-- Reads a sum. -/
def sum (p : Parser) : Step p.size Expr :=
  match hstarted : p.skipPlus with
  | (.error error, rest) => .fail error rest
  | (.ok (), rest) =>
    have _hle := size_skipPlus hstarted
    match product rest with
    | .fail error after => .fail error after
    | .done (e, _) after hshorter =>
      (sumAfter e after).weaken (Nat.le_trans hshorter (size_skipPlus hstarted))
termination_by 6 * p.size + 4
decreasing_by all_goals simp only [size] at *; omega

/-- Reads the rest of a sum that is `e` so far. -/
def sumAfter (e : Expr) (p : Parser) : Step (p.size + 1) Expr :=
  match htaken : p.next with
  | (.error error, rest) => .fail error rest
  | (.ok none, rest) => .done e rest (Nat.lt_succ_of_le (Nat.le_of_eq (size_next_none htaken)))
  | (.ok (some t), rest) =>
    have _hlt := size_next htaken
    match t.kind.direction? .additive with
    | some reverse =>
      match product rest with
      | .fail error after => .fail error after
      | .done (rhs, _) after hshorter =>
        (sumAfter (e.join .additive rhs reverse) after).weaken
          (by have := size_next htaken; simp only [size] at *; omega)
    | none =>
      if t.kind = .int || t.kind = .openParen then
        .fail (.about t.span (.missingOperator (rest.remainder t.span))) rest
      else
        .done e (rest.pushBack t) (Nat.lt_succ_of_le (Nat.le_of_eq (size_pushBack_next htaken)))
termination_by 6 * p.size
decreasing_by all_goals simp only [size] at *; omega

/-- Reads a product, and the span of it. -/
def product (p : Parser) : Step p.size (Expr × Span) :=
  match operand p with
  | .fail error rest => .fail error rest
  | .done (e, span) rest hshorter => (productAfter e span rest).weaken hshorter
termination_by 6 * p.size + 3
decreasing_by all_goals simp only [size] at *; omega

/-- Reads the rest of a product that is `e` so far. -/
def productAfter (e : Expr) (span : Span) (p : Parser) : Step (p.size + 1) (Expr × Span) :=
  match htaken : p.next with
  | (.error error, rest) => .fail error rest
  | (.ok none, rest) =>
    .done (e, span) rest (Nat.lt_succ_of_le (Nat.le_of_eq (size_next_none htaken)))
  | (.ok (some t), rest) =>
    have _hlt := size_next htaken
    match t.kind.direction? .multiplicative with
    | some reverse =>
      match operand rest with
      | .fail error after => .fail error after
      | .done (rhs, divisor) after hshorter =>
        let joined := e.join .multiplicative rhs reverse
        if joined.value.isNone then
          .fail (.about divisor (.divisionByZero (after.remainder divisor))) after
        else
          (productAfter joined ⟨span.start, divisor.stop⟩ after).weaken
            (by have := size_next htaken; simp only [size] at *; omega)
    | none =>
      .done (e, span) (rest.pushBack t)
        (Nat.lt_succ_of_le (Nat.le_of_eq (size_pushBack_next htaken)))
termination_by 6 * p.size
decreasing_by all_goals simp only [size] at *; omega

/-- Reads a number or a sum in parentheses, and the span of it. -/
def operand (p : Parser) : Step p.size (Expr × Span) :=
  match htaken : p.next with
  | (.error error, rest) => .fail error rest
  | (.ok none, rest) => .fail (.about rest.tokens.endSpan (.missingOperand "")) rest
  | (.ok (some t), rest) =>
    have _hlt := size_next htaken
    match t.kind with
    | .int =>
      match Integer.read t.lexeme with
      | .ok n => .done (.number n, t.span) rest (by simp only [size] at *; omega)
      | .error _ =>
        .fail (.about t.span
          (.invalidCharacter (TokenStream.firstChar t) (rest.remainder t.span))) rest
    | .openParen => (paren t rest).weaken (by omega)
    | kind =>
      if kind = .closeParen && rest.depth = 0 then
        .fail (.about t.span (.unclosedParenthesis false (rest.remainder t.span))) rest
      else
        .fail (.about t.span (.missingOperand (rest.remainder t.span))) rest
termination_by 6 * p.size + 2
decreasing_by all_goals simp only [size] at *; omega

/-- Reads the rest of a sum in parentheses, behind the opening one. -/
def paren (opening : Token) (p : Parser) : Step p.size (Expr × Span) :=
  match hseen : p.peek with
  | (.error error, rest) => .fail error rest
  | (.ok ahead, rest) =>
    have _heq := size_peek hseen
    match ahead.filter (·.kind = .closeParen) with
    | some closing =>
      .fail (.about ⟨opening.span.start, closing.span.stop⟩
        (.emptyParenthesis (rest.remainder opening.span))) rest
    | none =>
      match sum rest.enter with
      | .fail error after => .fail error after
      | .done e after hshorter =>
        match hclosed : after.leave.next with
        | (.error error, final) => .fail error final
        | (.ok none, final) => .fail (final.unclosed opening) final
        | (.ok (some t), final) =>
          if t.kind = .closeParen then
            .done (e, ⟨opening.span.start, t.span.stop⟩) final
              (by
                have := size_next hclosed
                have := size_leave after
                have := size_enter rest
                simp only [size] at *
                omega)
          else
            .fail (final.unclosed opening) final
termination_by 6 * p.size + 5
decreasing_by all_goals simp only [size, enter] at *; omega

end

/-! ## Whole texts -/

/-- Reads all of a text as one sum. -/
def full (p : Parser) : Except Error Expr × Parser :=
  match p.sum with
  | .fail error rest => (.error error, rest)
  | .done e rest _ =>
    match rest.next with
    | (.error error, final) => (.error error, final)
    | (.ok none, final) => (.ok e, final)
    | (.ok (some t), final) =>
      (.error (.about t.span (.unclosedParenthesis false (final.remainder t.span))), final)

end Parser

/-- The expression that a text stands for, in canonical form.  Operations are applied as written, so
`3 - 5` is -2. -/
def Expr.parse (text : String) : Except Error Expr :=
  (Parser.ofSource text).full.1

end TwentyFour
