import TwentyFour.CommandLine

/-!
# The program

Reads lines from the standard input and prints the replies; reports of errors go to the standard
error.  The cards are dealt at random.
-/

namespace TwentyFour

/-- Enough random numbers for the cards of one line. -/
def randomPicks : IO Picks := do
  let numbers ← (List.range deckSize).mapM fun _ => IO.rand 0 0x7fffffff
  return ⟨numbers⟩

/-- Puts an event out. -/
def putEvent : Event → IO Unit
  | .printed text => IO.println text
  | .reported line e => IO.eprint (e.report line)

/-- Executes the lines of a stream until it ends or a line asks to leave. -/
partial def serve (input : IO.FS.Stream) (s : Session) : IO Unit := do
  let raw ← input.getLine
  if raw.isEmpty then
    return
  let line := String.ofList (stripLineEnd raw.toList)
  let (reply, next) := { s with picks := ← randomPicks }.execute line
  (Event.ofReply line reply).forM putEvent
  (← IO.getStdout).flush
  if !endsSession reply then
    serve input next

end TwentyFour

/-- Runs a session with the options of the command line. -/
def main (args : List String) : IO UInt32 := do
  match TwentyFour.Settings.ofArgs args with
  | .error e =>
    IO.eprint e.report
    return 1
  | .ok settings =>
    TwentyFour.serve (← IO.getStdin) (settings.session ⟨[]⟩)
    return 0
