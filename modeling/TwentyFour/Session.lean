import TwentyFour.Command
import TwentyFour.Expr.Parser
import TwentyFour.Game.Basic
import TwentyFour.Reply

/-!
# Sessions

A session executes lines one after the other.  Between lines it keeps the target, the hand that
hints are being given for, the game that is on, and the picks for the cards to come.

A line that is refused with an error leaves the session as it was.  So does one that only asks,
such as a hand to solve or a solution to check.
-/

namespace TwentyFour

/-- The hand that hints are being given for. -/
structure HintedHand where
  /-- The numbers, in order. -/
  values : List Nat
  target : Int
  hints : Hints
deriving DecidableEq, Repr

/-- The state between lines. -/
structure Session where
  /-- The value that solutions must have. -/
  target : Int
  glyphs : Glyphs
  /-- The hand that the last numbered hint was for. -/
  hinted : Option HintedHand
  playOptions : PlayOptions
  /-- The game, if one is on. -/
  game : Option Game
  picks : Picks
deriving DecidableEq, Repr

namespace Session

/-- A session before its first line. -/
def start (glyphs : Glyphs) (playOptions : PlayOptions) (target : Int) (picks : Picks) : Session :=
  ⟨target, glyphs, none, playOptions, none, picks⟩

/-- The hand being played. -/
def currentHand (s : Session) : Option Hand :=
  s.game.bind (·.current)

/-- Changes the hand being played. -/
def updateHand (s : Session) (f : Hand → Hand) : Session :=
  { s with game := s.game.map (·.updateCurrent f) }

/-- Solutions, one per line. -/
def listing (s : Session) (answers : List Expr) : String :=
  if answers.isEmpty then
    Reply.noSolutions
  else
    "\n".intercalate (answers.map fun e => e.render s.glyphs)

/-- A hint, as it is shown. -/
def hintText (s : Session) (e : Expr) : String :=
  "Hint: " ++ e.hint s.glyphs

/-! ## Hints and checks -/

/-- The hints for the hand with these numbers.  Those of the last one go on if it is the same hand
with the same target. -/
def hintsFor (s : Session) (values : List Nat) : Hints :=
  match s.hinted with
  | none => .ofHand values s.target
  | some last =>
    if last.values = values && last.target = s.target then
      last.hints
    else
      .ofHand values s.target

/-- Gives the next hint for the numbers. -/
def hint (s : Session) (numbers : List Nat) : String × Session :=
  let values := sortBy compare numbers
  let hints := s.hintsFor values
  match hints.next with
  | none => (Reply.noSolutions, { s with hinted := some ⟨values, s.target, hints⟩ })
  | some (e, later) => (s.hintText e, { s with hinted := some ⟨values, s.target, later⟩ })

/-- Checks a solution for the numbers. -/
def check (s : Session) (values : List Nat) (solution : String) : Except Error String :=
  match Expr.parse solution with
  | .error e => .error e
  | .ok e =>
    match objection? e values s.target with
    | some text => .ok text
    | none => .ok (praise e (solve values s.target))

/-! ## Dealing -/

/-- The number and the content of the last of a game's hands. -/
def handText (game : Game) (hand : Hand) : String :=
  "Hand " ++ game.hands.length.repr ++ ": " ++ hand.describe game.options.showCards

/-- What is said at the end of a set. -/
def setEndText (game : Game) : String :=
  "Set end, your result\n" ++ game.summary.text ++ "\n\n"

/-- What is said at the start of a set. -/
def setStartText (game : Game) : String :=
  if game.hands.isEmpty then "Set " ++ game.set.repr ++ "\n" else ""

/-- Deals the next hand of a game.  When the deck runs out, the results of the set are shown and a
new set begins. -/
def dealFrom (s : Session) (game : Game) : String × Session :=
  let ended := if game.isSetEnd then setEndText game else ""
  let game := if game.isSetEnd then game.reset else game
  let opening := ended ++ setStartText game
  match game.deal s.picks s.target with
  | none => (opening, { s with game := some game })
  | some (dealt, picks) =>
    let shown := match dealt.current with
      | none => ""
      | some hand => handText dealt hand
    (opening ++ shown, { s with game := some dealt, picks := picks })

/-- Deals the next hand. -/
def deal (s : Session) : String × Session :=
  match s.game with
  | none => (Reply.noGame, s)
  | some game => s.dealFrom game

/-- Ends a hand with a reply and deals the next one. -/
def thenDeal (s : Session) (reply : String) : String × Session :=
  let (text, next) := s.deal
  (reply ++ "\n\n" ++ text, next)

/-! ## Playing -/

/-- Starts a game, or shows the hand being played. -/
def play (s : Session) : String × Session :=
  match s.game with
  | none => s.dealFrom (.start s.playOptions)
  | some game =>
    match game.current with
    | none => s.dealFrom game
    | some hand => (handText game hand, s)

/-- Claims that the hand being played has no solution. -/
def noSolutions (s : Session) : String × Session :=
  match s.currentHand with
  | none => s.deal
  | some hand =>
    if hand.answers.isEmpty then
      (s.updateHand Hand.markSolved).thenDeal Reply.right
    else
      (Reply.wrong, s)

/-- Gives a hint for the hand being played.  A hand without solutions ends there. -/
def hintHand (s : Session) : String × Session :=
  match s.currentHand with
  | none => s.deal
  | some hand =>
    let s := s.updateHand fun hand => hand.hint.2
    match hand.hint.1 with
    | none => s.thenDeal Reply.noSolutions
    | some e => (s.hintText e, s)

/-- Shows the solutions of the hand being played and goes on to the next one. -/
def reveal (s : Session) : String × Session :=
  match s.currentHand with
  | none => s.deal
  | some hand => s.thenDeal (s.listing hand.answers)

/-- Judges an answer to the hand being played.  A correct one goes on to the next hand. -/
def judge (s : Session) (e : Expr) : String × Session :=
  match s.currentHand with
  | none => s.deal
  | some hand =>
    match objection? e hand.values hand.target with
    | some text => (text, s)
    | none => (s.updateHand Hand.markSolved).thenDeal (praise e hand.answers)

/-- Ends the game and shows the results. -/
def stop (s : Session) : String × Session :=
  match s.game with
  | none => (Reply.noGame, s)
  | some game => ("Your result\n" ++ game.summary.text, { s with game := none })

/-! ## Executing lines -/

/-- Pairs the text of a reply with the session after it. -/
def replyText (outcome : String × Session) : Except Error Reply × Session :=
  (.ok (.text outcome.1), outcome.2)

/-- Carries out a command. -/
def perform (s : Session) (command : Command) : Except Error Reply × Session :=
  match command with
  | .solve values => replyText (s.listing (solve values s.target), s)
  | .hint values => replyText (s.hint values)
  | .check values solution offset =>
    match s.check values solution with
    | .error e => (.error (e.shift offset), s)
    | .ok text => replyText (text, s)
  | .target value =>
    replyText ("Target is now " ++ integerText value, { s with target := value })
  | .play => replyText s.play
  | .next => replyText s.deal
  | .noSolutions => replyText s.noSolutions
  | .reveal => replyText s.reveal
  | .hintHand => replyText s.hintHand
  | .answer solution offset =>
    match Expr.parse solution with
    | .error e => (.error (e.shift offset), s)
    | .ok e => replyText (s.judge e)
  | .stop => replyText s.stop
  | .help => replyText (Reply.commands, s)
  | .quit => (.ok .quit, s)

/-- Executes a line. -/
def execute (s : Session) (line : String) : Except Error Reply × Session :=
  match Command.parse line s.game.isSome with
  | .error e => (.error e, s)
  | .ok none => (.ok .silent, s)
  | .ok (some command) => s.perform command

/-- A command that is refused changes nothing. -/
theorem perform_error {s after : Session} {command : Command} {e : Error}
    (h : s.perform command = (.error e, after)) : after = s := by
  cases command <;> simp only [perform, replyText] at h
  case check =>
    split at h
    · exact (Prod.mk.inj h).2.symm
    · simp at h
  case answer =>
    split at h
    · exact (Prod.mk.inj h).2.symm
    · simp at h
  all_goals simp at h

/-- A line that is refused changes nothing. -/
theorem execute_error {s after : Session} {line : String} {e : Error}
    (h : s.execute line = (.error e, after)) : after = s := by
  unfold execute at h
  split at h
  · exact (Prod.mk.inj h).2.symm
  · simp at h
  · exact perform_error h

end Session

end TwentyFour
