import TwentyFour.Session
import TwentyFour.Text.Quoted

/-!
# The command line

Options say how expressions are printed and how hands are dealt.  The lines of the input are then
executed one after the other, until the input ends or a line asks to leave.
-/

namespace TwentyFour

/-- Why the options are refused. -/
inductive OptionError where
  /-- The number of cards is missing or out of range. -/
  | count
  /-- The target is missing or no integer. -/
  | target
  /-- There is no such option. -/
  | unknown (option : String)
deriving DecidableEq, Repr

/-- What is wrong with an option, in words. -/
def OptionError.message : OptionError → String
  | .count => "`--count` takes a number from 1 to " ++ deckSize.repr
  | .target => "`--target` takes an integer"
  | .unknown option => "unknown option `" ++ option ++ "`"

/-- The line that refuses the options. -/
def OptionError.report (error : OptionError) : String :=
  "Error: " ++ quoted error.message ++ "\n"

/-- What the options set. -/
structure Settings where
  glyphs : Glyphs
  play : PlayOptions
  target : Int
deriving DecidableEq, Repr

namespace Settings

/-- The settings without any options. -/
def standard : Settings :=
  ⟨.unicode, .standard, defaultTarget⟩

/-- Reads a number of cards. -/
def count? (arg : String) : Option Nat :=
  (natural? arg).filter fun n => 1 ≤ n && n ≤ deckSize

/-- Applies options from left to right.  The first wrong one is an error. -/
def apply (settings : Settings) : List String → Except OptionError Settings
  | [] => .ok settings
  | "--ascii" :: rest => apply { settings with glyphs := .ascii } rest
  | "--cards" :: rest => apply { settings with play.showCards := true } rest
  | "--face-to-ten" :: rest => apply { settings with play.faceToTen := true } rest
  | ["--count"] => .error .count
  | "--count" :: arg :: rest =>
    match count? arg with
    | none => .error .count
    | some n => apply { settings with play.count := n } rest
  | ["--target"] => .error .target
  | "--target" :: arg :: rest =>
    match integer? arg with
    | none => .error .target
    | some n => apply { settings with target := n } rest
  | other :: _ => .error (.unknown other)

/-- The settings that options ask for. -/
def ofArgs (args : List String) : Except OptionError Settings :=
  standard.apply args

/-- The session that starts with these settings. -/
def session (settings : Settings) (picks : Picks) : Session :=
  .start settings.glyphs settings.play settings.target picks

end Settings

/-- What a line puts out. -/
inductive Event where
  /-- A text on the standard output. -/
  | printed (text : String)
  /-- The report of an error in a line. -/
  | reported (line : String) (error : Error)
deriving DecidableEq, Repr

/-- The line that says what an error is. -/
def Error.headline (e : Error) : String :=
  "Error: " ++ e.cause.message

/-- What is put out for a reply. -/
def Event.ofReply (line : String) : Except Error Reply → List Event
  | .ok (.text text) => [.printed text]
  | .ok .silent => []
  | .ok .quit => []
  | .error e => [.reported line e]

/-- Whether a reply ends the session. -/
def endsSession : Except Error Reply → Bool
  | .ok .quit => true
  | _ => false

/-- Executes lines, up to the one that asks to leave. -/
def Session.run (s : Session) : List String → List Event
  | [] => []
  | line :: rest =>
    let (reply, next) := s.execute line
    if endsSession reply then [] else Event.ofReply line reply ++ next.run rest

/-- What the program puts out for its options and its whole input. -/
def transcript (args : List String) (input : String) (picks : Picks) :
    Except OptionError (List Event) :=
  match Settings.ofArgs args with
  | .error e => .error e
  | .ok settings => .ok ((settings.session picks).run (lines input))

/-- The standard output of events. -/
def printedText (events : List Event) : String :=
  String.join (events.filterMap fun
    | .printed text => some (text ++ "\n")
    | .reported .. => none)

/-- The first lines of the reports among events. -/
def headlines (events : List Event) : List String :=
  events.filterMap fun
    | .printed _ => none
    | .reported _ e => some e.headline

/-- An error in full: what is wrong, where, and how to mend it. -/
def Error.report (e : Error) (source : String) : String :=
  let place := match e.location? source with
    | none => ""
    | some location => "  at " ++ location.text ++ ":"
  let labels := e.labels.map fun label => place ++ " " ++ label ++ "\n"
  let help := e.help?.toList.map fun help => "  help: " ++ help ++ "\n"
  e.headline ++ "\n" ++ String.join (labels ++ help)

end TwentyFour
