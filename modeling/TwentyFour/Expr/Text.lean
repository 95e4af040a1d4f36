import TwentyFour.Expr.Basic
import TwentyFour.Text.Integer

/-!
# Expressions as text

An expression is written in canonical order, with an operator between any two operands.  The only
nesting that needs parentheses is a sum inside a product, since products bind tighter.

A hint names one step of an expression: the first two operands of the innermost compound that is
reached by going into the first compound operand again and again.
-/

namespace TwentyFour

/-- The signs to use for multiplication and division. -/
inductive Glyphs where
  /-- The signs `×` and `÷`. -/
  | unicode
  /-- The signs `*` and `/`, which are easier to type. -/
  | ascii
deriving DecidableEq, Repr

/-- The sign in front of an operand of the given class and direction. -/
def Glyphs.operator (glyphs : Glyphs) (cls : OpClass) (reverse : Bool) : String :=
  match glyphs, cls, reverse with
  | _, .additive, false => "+"
  | _, .additive, true => "-"
  | .unicode, .multiplicative, false => "×"
  | .unicode, .multiplicative, true => "÷"
  | .ascii, .multiplicative, false => "*"
  | .ascii, .multiplicative, true => "/"

namespace Expr

/-- Puts parentheses around the text of an operand that needs them. -/
def enclose (cls : OpClass) (e : Expr) (text : String) : String :=
  if cls = .multiplicative && !e.isNumber then "(" ++ text ++ ")" else text

mutual

/-- The text of an expression. -/
def render (glyphs : Glyphs) : Expr → String
  | .number v => rationalText v
  | .compound cls ops => renderOperands glyphs cls true ops

/-- The text of operands; all but the first have their operator in front. -/
def renderOperands (glyphs : Glyphs) (cls : OpClass) (isFirst : Bool) :
    List (Operand Expr) → String
  | [] => ""
  | ⟨reverse, e⟩ :: rest =>
    (if isFirst then "" else " " ++ glyphs.operator cls reverse ++ " ") ++
      enclose cls e (e.render glyphs) ++ renderOperands glyphs cls false rest

end

mutual

/-- The innermost compound reached by going into the first compound operand. -/
def firstStep : Expr → Expr
  | .number v => .number v
  | .compound cls ops => firstStepOr (.compound cls ops) ops

/-- The first step of the first compound among operands, or `whole` if all are numbers. -/
def firstStepOr (whole : Expr) : List (Operand Expr) → Expr
  | [] => whole
  | ⟨_, e⟩ :: rest => if e.isNumber then firstStepOr whole rest else e.firstStep

end

/-- One step of the expression, such as `8 ÷ 3`. -/
def hint (glyphs : Glyphs) (e : Expr) : String :=
  match e.firstStep with
  | .compound cls (lhs :: rhs :: _) =>
    lhs.expr.render glyphs ++ " " ++ glyphs.operator cls rhs.reverse ++ " " ++
      rhs.expr.render glyphs
  | step => step.render glyphs

end Expr

end TwentyFour
