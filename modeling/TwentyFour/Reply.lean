import TwentyFour.Expr.Leaves
import TwentyFour.Expr.Text
import TwentyFour.Ordered

/-!
# Replies

What the program answers to a line, and the wording of its answers.  An expression that the player
types is a solution if there is no objection to it: it must use exactly the numbers of the hand and
have the target as its value.  A solution that the search did not find is praised all the more.
-/

namespace TwentyFour

/-- The outcome of a line. -/
inductive Reply where
  /-- Text to print. -/
  | text (text : String)
  /-- Nothing to print. -/
  | silent
  /-- The end of the session. -/
  | quit
deriving DecidableEq, Repr

namespace Reply

/-- The commands and what they do. -/
def commands : String :=
  "Commands:\n" ++
  "  a b c d                  show every solution for the numbers\n" ++
  "  hint a b c d             show one step of a solution; repeat for the next solution\n" ++
  "  check a b c d : <expr>   check your solution, e.g. `check 4 4 10 10 : (10 × 10 - 4) ÷ 4`\n" ++
  "  target N                 change the target (24 by default)\n" ++
  "  play                     deal hands from a shuffled deck\n" ++
  "  help                     show this message\n" ++
  "  quit                     leave\n" ++
  "\n" ++
  "During a game:\n" ++
  "  <expr>                   answer the current hand\n" ++
  "  none                     definitely no solutions for the current hand\n" ++
  "  hint                     show one step of a solution for the current hand\n" ++
  "  show                     give up and show every solution\n" ++
  "  next                     skip the current hand\n" ++
  "  stop                     end the game and show your results"

/-- There is nothing to show or to hint at. -/
def noSolutions : String := "Seems no solutions"

/-- An answer has the wrong value, or a hand that is said to have no solutions has some. -/
def wrong : String := "Sorry! It's not correct!"

/-- A solution that the search found as well. -/
def right : String := "Good job!"

/-- A solution that the search did not find. -/
def unexpected : String := "Great job! That is a valid solution the solver did not find."

/-- There is no game on. -/
def noGame : String := "Type `play` to start a game"

end Reply

/-- Why an expression is no solution, or nothing if it is one: it must use exactly the numbers of
the hand and have the target as its value. -/
def objection? (e : Expr) (values : List Nat) (target : Int) : Option String :=
  if !e.usesExactly values then
    some ("Sorry! A solution must use exactly the numbers " ++
      naturalsText " " (sortBy compare values))
  else
    match e.value with
    | none => some Reply.wrong
    | some v =>
      if v = (target : Rat) then
        none
      else
        some (Reply.wrong ++ " That is equal to " ++ rationalText v)

/-- What is said of a solution: whether the search found it as well. -/
def praise (e : Expr) (answers : List Expr) : String :=
  if answers.contains e then Reply.right else Reply.unexpected

end TwentyFour
