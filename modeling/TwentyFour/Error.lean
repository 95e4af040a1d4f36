import TwentyFour.Text.Source

/-!
# Errors

An error is a cause together with the spans of the text it is about.  Six causes come from reading
a solution and six from reading a command.  All wording is here: every cause has a message, a label
for the place it points at, and most have a line of help.
-/

namespace TwentyFour

/-- What is wrong with a solution or a command. -/
inductive Cause where
  /-- A character cannot start any token. -/
  | invalidCharacter (character : Char) (remainder : String)
  /-- An operand was expected, but an operator or the end came. -/
  | missingOperand (remainder : String)
  /-- Two operands stand next to each other. -/
  | missingOperator (remainder : String)
  /-- A parenthesis has no partner; `opening` says which one it is. -/
  | unclosedParenthesis (opening : Bool) (remainder : String)
  /-- There is nothing between two parentheses. -/
  | emptyParenthesis (remainder : String)
  /-- A divisor is equal to zero. -/
  | divisionByZero (remainder : String)
  /-- The first word is neither a command nor a number. -/
  | unknownCommand (name : String)
  /-- A word is not an integer that fits. -/
  | invalidInteger (lexeme : String)
  /-- A command that needs numbers has none. -/
  | missingNumbers (command : String)
  /-- There is no `:` between the numbers and the solution to check. -/
  | missingSeparator
  /-- A command that takes one number has more. -/
  | extraArguments (command : String)
  /-- A command that belongs to a game was given outside of one. -/
  | notPlaying (name : String)
deriving DecidableEq, Repr

/-- A cause and the parts of the text it is about. -/
structure Error where
  spans : List Span
  cause : Cause
deriving DecidableEq, Repr

namespace Cause

/-- What went wrong, in one line. -/
def message : Cause → String
  | invalidCharacter character _ => "invalid character `" ++ character.toString ++ "`"
  | missingOperand _ => "missing operand"
  | missingOperator _ => "missing operator"
  | unclosedParenthesis _ _ => "unclosed parenthesis"
  | emptyParenthesis _ => "empty parentheses"
  | divisionByZero _ => "division by zero"
  | unknownCommand name => "unknown command `" ++ name ++ "`"
  | invalidInteger lexeme => "invalid integer: " ++ lexeme
  | missingNumbers command => "`" ++ command ++ "` needs at least one number"
  | missingSeparator => "missing `:` before the solution"
  | extraArguments command => "`" ++ command ++ "` takes exactly one number"
  | notPlaying name => "`" ++ name ++ "` can only be used during a game"

/-- What is said about the place that the error points at. -/
def label : Cause → String
  | invalidCharacter .. => "this character"
  | missingOperand _ => "I expected to see a number here"
  | missingOperator _ => "add an operator before this"
  | unclosedParenthesis true _ => "this parenthesis is never closed"
  | unclosedParenthesis false _ => "this parenthesis has no opening partner"
  | emptyParenthesis _ => "nothing in here"
  | divisionByZero _ => "this is equal to zero"
  | unknownCommand _ => "this word"
  | invalidInteger _ => "this is not an integer"
  | missingNumbers _ => "add some numbers here"
  | missingSeparator => "after these numbers"
  | extraArguments _ => "remove this"
  | notPlaying _ => "this command"

/-- How to mend it. -/
def help? : Cause → Option String
  | invalidCharacter .. =>
    some "only whole numbers, parentheses and the operators + - × * ÷ / are allowed"
  | missingOperand remainder =>
    some (if remainder.isEmpty then "the expression ended too early"
      else "could not continue from `" ++ remainder ++ "`")
  | missingOperator _ =>
    some "numbers cannot be placed next to each other; write `2 × 3`, not `2 3`"
  | unclosedParenthesis true _ => some "add a closing `)`"
  | unclosedParenthesis false _ => some "remove it, or add an opening `(` before it"
  | emptyParenthesis _ => some "put an expression between the parentheses, or remove them"
  | divisionByZero _ => none
  | unknownCommand _ => some "type help to see the available commands"
  | invalidInteger _ => none
  | missingNumbers _ => none
  | missingSeparator => some "write the command as check 4 4 10 10 : (10 × 10 - 4) ÷ 4"
  | extraArguments _ => none
  | notPlaying _ => some "type play to start a game"

end Cause

namespace Error

/-- An error about one part of the text. -/
def about (span : Span) (cause : Cause) : Error :=
  ⟨[span], cause⟩

/-- Moves the spans, for an error in a part of a line that starts at byte `offset`. -/
def shift (e : Error) (offset : Nat) : Error :=
  { e with spans := e.spans.map fun span => span.shift offset }

/-- The labels that are shown: the text of the cause, if there is a place to show it at. -/
def labels (e : Error) : List String :=
  if e.spans.isEmpty then [] else [e.cause.label]

/-- The help that is shown; there is none without a place. -/
def help? (e : Error) : Option String :=
  if e.spans.isEmpty then none else e.cause.help?

/-- Where in `source` the error is: the place of its first span. -/
def location? (e : Error) (source : String) : Option Location :=
  e.spans.head?.bind fun span => span.location? source

end Error

end TwentyFour
