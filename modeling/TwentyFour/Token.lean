import TwentyFour.Text.Source

/-!
# Tokens

A text is cut into tokens without losing anything: runs of blanks, runs of ASCII digits, and single
characters.  A character that belongs nowhere is a token of its own, of the kind `symbol`.

`runs` groups the characters and `placeFrom` adds the byte offsets.  The lexemes put together are
the text (`flatten_runs`, `lexemes_tokens`).
-/

namespace TwentyFour

/-- The kinds of tokens. -/
inductive Kind where
  /-- A run of spaces, tabs, line feeds and carriage returns. -/
  | blank
  /-- The sign `+`. -/
  | add
  /-- The sign `-`. -/
  | sub
  /-- The sign `*` or `×`. -/
  | mul
  /-- The sign `/` or `÷`. -/
  | div
  /-- The parenthesis `(`. -/
  | openParen
  /-- The parenthesis `)`. -/
  | closeParen
  /-- A run of ASCII digits. -/
  | int
  /-- Any other character. -/
  | symbol
deriving DecidableEq, Repr

namespace Kind

/-- The kind of token that a character is part of. -/
def ofChar (c : Char) : Kind :=
  if c = ' ' || c = '\t' || c = '\n' || c = '\r' then .blank
  else if c = '+' then .add
  else if c = '-' then .sub
  else if c = '*' || c = '×' then .mul
  else if c = '/' || c = '÷' then .div
  else if c = '(' then .openParen
  else if c = ')' then .closeParen
  else if c.isDigit then .int
  else .symbol

/-- Whether neighbouring characters of the kind make one token. -/
def isRun : Kind → Bool
  | .blank | .int => true
  | _ => false

end Kind

/-- A piece of a text, with the bytes it stands at. -/
structure Token where
  kind : Kind
  lexeme : String
  span : Span
deriving DecidableEq, Repr

/-! ## Cutting a text -/

/-- Puts a character in front of a grouped text. -/
def consRun (c : Char) : List (Kind × List Char) → List (Kind × List Char)
  | [] => [(.ofChar c, [c])]
  | (kind, cs) :: rest =>
    if kind.isRun && kind = .ofChar c then
      (kind, c :: cs) :: rest
    else
      (.ofChar c, [c]) :: (kind, cs) :: rest

/-- Groups characters into tokens. -/
def runs : List Char → List (Kind × List Char)
  | [] => []
  | c :: cs => consRun c (runs cs)

/-- Makes tokens of a grouped text whose first byte is at `start`. -/
def placeFrom (start : Nat) : List (Kind × List Char) → List Token
  | [] => []
  | (kind, cs) :: rest =>
    ⟨kind, String.ofList cs, start, start + byteLength cs⟩ ::
      placeFrom (start + byteLength cs) rest

/-- All tokens of a text, blanks included. -/
def tokens (text : String) : List Token :=
  placeFrom 0 (runs text.toList)

/-- The tokens that are not blank. -/
def visible (ts : List Token) : List Token :=
  ts.filter fun t => t.kind ≠ .blank

/-- The tokens of a text that are not blank. -/
def visibleTokens (text : String) : List Token :=
  visible (tokens text)

/-! ## Nothing is lost -/

theorem flatten_consRun (c : Char) (groups : List (Kind × List Char)) :
    ((consRun c groups).map (·.2)).flatten = c :: (groups.map (·.2)).flatten := by
  unfold consRun
  split
  · simp
  · split <;> simp

/-- Grouping loses nothing. -/
theorem flatten_runs (cs : List Char) : ((runs cs).map (·.2)).flatten = cs := by
  induction cs with
  | nil => rfl
  | cons c cs ih => rw [runs, flatten_consRun, ih]

theorem lexemes_placeFrom (start : Nat) (groups : List (Kind × List Char)) :
    ((placeFrom start groups).map fun t => t.lexeme.toList) = groups.map (·.2) := by
  induction groups generalizing start with
  | nil => rfl
  | cons group rest ih => simp [placeFrom, ih]

/-- The lexemes put together are the text. -/
theorem lexemes_tokens (text : String) :
    ((tokens text).map fun t => t.lexeme.toList).flatten = text.toList := by
  rw [tokens, lexemes_placeFrom, flatten_runs]

end TwentyFour
