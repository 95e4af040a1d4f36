import TwentyFour.Error
import TwentyFour.Text.Integer
import TwentyFour.Text.Words

/-!
# Commands

A line is read as a command by its first word.  Some commands take numbers, `check` takes numbers
and a solution behind a colon, and some are only understood when they stand alone.  During a game a
line that is no command is an answer to the current hand; outside of one, a line that starts with
an integer is a hand to solve.

The errors of this module point at the word that is wrong.
-/

namespace TwentyFour

/-- What a line asks for. -/
inductive Command where
  /-- Every solution for the numbers. -/
  | solve (values : List Nat)
  /-- A hint for the numbers. -/
  | hint (values : List Nat)
  /-- Whether `solution`, which starts at byte `offset` of the line, is one for the numbers. -/
  | check (values : List Nat) (solution : String) (offset : Nat)
  /-- Another target. -/
  | target (value : Int)
  /-- A game, or the current hand if one is on. -/
  | play
  /-- The next hand. -/
  | next
  /-- The claim that the current hand has no solution. -/
  | noSolutions
  /-- The solutions of the current hand. -/
  | reveal
  /-- A hint for the current hand. -/
  | hintHand
  /-- An answer to the current hand, which starts at byte `offset` of the line. -/
  | answer (solution : String) (offset : Nat)
  /-- The end of the game. -/
  | stop
  /-- The list of commands. -/
  | help
  /-- The end of the session. -/
  | quit
deriving DecidableEq, Repr

/-- The words that a command can start with. -/
inductive Keyword where
  | help
  | quit
  | play
  | next
  | noSolutions
  | reveal
  | stop
  | hint
  | check
  | target
deriving DecidableEq, Repr

/-- The keyword that a word is, if it is one. -/
def Keyword.ofWord? (word : String) : Option Keyword :=
  match word with
  | "help" | "?" => some .help
  | "quit" | "exit" | "q" => some .quit
  | "play" => some .play
  | "next" => some .next
  | "none" => some .noSolutions
  | "show" => some .reveal
  | "stop" => some .stop
  | "hint" => some .hint
  | "check" => some .check
  | "target" => some .target
  | _ => none

namespace Command

/-! ## Numbers -/

/-- The error for a word that is not an integer. -/
def notInteger (word : Word) : Error :=
  .about word.span (.invalidInteger word.text)

/-- Reads words as natural numbers.  The first one that is none is an error. -/
def naturals : List Word → Except Error (List Nat)
  | [] => .ok []
  | word :: rest =>
    match natural? word.text with
    | none => .error (notInteger word)
    | some n =>
      match naturals rest with
      | .error e => .error e
      | .ok values => .ok (n :: values)

/-- Reads the numbers of a command, of which there must be one at least. -/
def hand (name : String) (first : Word) (numbers : List Word) : Except Error (List Nat) :=
  match naturals numbers with
  | .error e => .error e
  | .ok [] => .error (.about first.span (.missingNumbers name))
  | .ok values => .ok values

/-! ## Lines -/

/-- Reads the numbers and the solution of `check`. -/
def readCheck (line : String) (first : Word) : Except Error Command :=
  let cs := line.toList
  match (dropBytes first.span.stop cs).span (· ≠ ':') with
  | (_, []) =>
    .error (.about ⟨first.span.start, byteLength (trimEnd cs)⟩ .missingSeparator)
  | (numbers, _ :: solution) =>
    match hand "check" first (words first.span.stop numbers) with
    | .error e => .error e
    | .ok values =>
      .ok (.check values (String.ofList solution) (first.span.stop + byteLength numbers + 1))

/-- Reads the number of `target`. -/
def readTarget (first : Word) : List Word → Except Error Command
  | [] => .error (.about first.span (.missingNumbers "target"))
  | [word] =>
    match integer? word.text with
    | none => .error (notInteger word)
    | some value => .ok (.target value)
  | _ :: extra :: _ => .error (.about extra.span (.extraArguments "target"))

/-- Reads a line that is no command: an answer during a game, else a hand.  A first number may be
negative, so that it is refused as a number of the hand. -/
def readOther (line : String) (playing : Bool) (first : Word) (others : List Word) :
    Except Error Command :=
  if playing then
    .ok (.answer line 0)
  else if (integer? first.text).isSome then
    match naturals (first :: others) with
    | .error e => .error e
    | .ok values => .ok (.solve values)
  else
    .error (.about first.span (.unknownCommand first.text))

/-- A command that makes sense only during a game. -/
def duringGame (playing : Bool) (first : Word) (command : Command) : Except Error Command :=
  if playing then .ok command else .error (.about first.span (.notPlaying first.text))

/-- Reads a line with the words `first` and `others`. -/
def readWords (line : String) (playing : Bool) (first : Word) (others : List Word) :
    Except Error Command :=
  match Keyword.ofWord? first.text, others with
  | some .help, _ => .ok .help
  | some .quit, _ => .ok .quit
  | some .play, [] => .ok .play
  | some .next, [] => duringGame playing first .next
  | some .noSolutions, [] => duringGame playing first .noSolutions
  | some .reveal, [] => duringGame playing first .reveal
  | some .stop, [] => duringGame playing first .stop
  | some .hint, numbers =>
    if playing && numbers.isEmpty then
      .ok .hintHand
    else
      match hand "hint" first numbers with
      | .error e => .error e
      | .ok values => .ok (.hint values)
  | some .check, _ => readCheck line first
  | some .target, numbers => readTarget first numbers
  | _, _ => readOther line playing first others

/-- Reads a line.  A blank line is no command at all. -/
def parse (line : String) (playing : Bool) : Except Error (Option Command) :=
  match words 0 line.toList with
  | [] => .ok none
  | first :: others =>
    match readWords line playing first others with
    | .error e => .error e
    | .ok command => .ok (some command)

end Command

end TwentyFour
