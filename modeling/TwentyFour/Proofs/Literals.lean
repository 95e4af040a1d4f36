import Mathlib.Data.List.Perm.Basic
import TwentyFour.Proofs.Answers
import TwentyFour.Proofs.RoundTrip

/-!
# The numbers that are typed

A text that parses stands for an expression that is made of the integer literals of the
text, each as often as it is typed.

* `integers` are the literals among tokens, and `literals` those of a text.
* `Derives.leaves_append` says that a derivation neither loses a literal nor adds one: the
  leaves of the tree are the literals in front of what follows, from left to right.
* `numbers_of_parse` carries this through the canonical form, where they are in another
  order.
* `Leaves.run` takes a number of expressions off the stack of a visit.  `size_run` and
  `numbers_run` are what this keeps; so a visit of an expression ends when every node has
  been taken off once.
* `usesExactly_iff_perm_literals` puts this together.
-/

namespace TwentyFour

/-! ## Literals -/

/-- The values of the integer literals among tokens, from left to right. -/
def integers (ts : List Token) : List Nat :=
  (ts.filter fun tok => tok.kind = .int).map Token.decimal

/-- The values of the integer literals of a text, from left to right. -/
def literals (text : String) : List Nat :=
  integers (tokens text)

theorem integers_cons_int {tok : Token} (h : tok.kind = .int) (ts : List Token) :
    integers (tok :: ts) = tok.decimal :: integers ts := by
  simp [integers, h]

theorem integers_cons_of_ne {tok : Token} (h : tok.kind ≠ .int) (ts : List Token) :
    integers (tok :: ts) = integers ts := by
  simp [integers, h]

/-- Blanks are no literals. -/
theorem integers_visibleTokens (text : String) :
    integers (visibleTokens text) = literals text := by
  have hvisible : ∀ tok : Token, (decide (tok.kind = .int) && decide (tok.kind ≠ .blank)) =
      decide (tok.kind = .int) := by
    intro tok
    cases tok.kind <;> rfl
  rw [literals, integers, visibleTokens, visible, List.filter_filter, integers]
  simp only [hvisible]

/-! ## The leaves of a derivation -/

/-- The leaves that a part has before anything is derived from it. -/
def Part.leaves : Part → List Rat
  | .after _ lhs => lhs.leaves
  | .operand | .product | .sum => []

theorem leaves_item (cls : OpClass) : cls.item.leaves = [] := by
  cases cls <;> rfl

theorem ne_int_of_direction? {cls : OpClass} {reverse : Bool} {k : Kind}
    (h : k.direction? cls = some reverse) : k ≠ .int := by
  rintro rfl
  simp [Kind.direction?] at h

/-- The literals among tokens, as values of leaves. -/
def integerLeaves (ts : List Token) : List Rat :=
  (integers ts).map fun (n : Nat) => (n : Rat)

theorem integerLeaves_cons_of_ne {tok : Token} (h : tok.kind ≠ .int) (ts : List Token) :
    integerLeaves (tok :: ts) = integerLeaves ts := by
  rw [integerLeaves, integers_cons_of_ne h, integerLeaves]

/-- No literal is lost and none is added: the leaves of a tree, with the literals that
follow, are the literals of the tokens, behind the leaves that were there before. -/
theorem Derives.leaves_append {part : Part} {ts rest : List Token} {t : Tree}
    (h : Derives part ts t rest) :
    t.leaves ++ integerLeaves rest = part.leaves ++ integerLeaves ts := by
  induction h with
  | int hkind =>
    rw [integerLeaves, integerLeaves, integers_cons_int hkind]
    rfl
  | paren hopening _ hclosing ih =>
    rw [integerLeaves_cons_of_ne (by simp [hclosing])] at ih
    rw [integerLeaves_cons_of_ne (by simp [hopening])]
    exact ih
  | product _ _ ihfirst ihafter | sum _ _ ihfirst ihafter => exact ihafter.trans ihfirst
  | plus hsign _ _ ihfirst ihafter =>
    rw [integerLeaves_cons_of_ne (by simp [hsign])]
    exact ihafter.trans ihfirst
  | stop => rfl
  | @more cls reverse sign ts us rest t u v hsign _ _ ihitem ihafter =>
    rw [leaves_item, List.nil_append] at ihitem
    rw [integerLeaves_cons_of_ne (ne_int_of_direction? hsign)]
    calc v.leaves ++ integerLeaves rest
        = (t.leaves ++ u.leaves) ++ integerLeaves us := ihafter
      _ = t.leaves ++ (u.leaves ++ integerLeaves us) := List.append_assoc ..
      _ = t.leaves ++ integerLeaves ts := by rw [ihitem]

/-- The leaves of the tree of a text are its literals, in the order in which they are
typed. -/
theorem leaves_of_derives {text : String} {t : Tree}
    (h : Derives .sum (visibleTokens text) t []) :
    t.leaves = (literals text).map fun (n : Nat) => (n : Rat) := by
  have hleaves := h.leaves_append
  rw [integerLeaves, integerLeaves, integers_visibleTokens] at hleaves
  simpa [Part.leaves, integers] using hleaves

theorem numbers_of_parse {text : String} {e : Expr} (h : Expr.parse text = .ok e) :
    e.numbers.Perm ((literals text).map fun (n : Nat) => (n : Rat)) := by
  obtain ⟨t, ht, rfl, -⟩ := Expr.denotes_of_parse h
  rw [← leaves_of_derives ht]
  exact t.numbers_canon_perm

/-! ## A visit of the numbers -/

namespace Leaves

/-- Takes `n` expressions off the stack, or all: the numbers that are handed out on the
way, and what is still to be visited. -/
def run : Nat → Leaves → List Rat × Leaves
  | 0, visit => ([], visit)
  | n + 1, visit =>
    match visit.pop with
    | none => ([], visit)
    | some (out, rest) => (out.toList ++ (run n rest).1, (run n rest).2)

theorem size_eq_zero_iff {visit : Leaves} : visit.size = 0 ↔ visit.stack = [] := by
  rcases visit with ⟨_ | ⟨e, es⟩⟩
  · simp [size, Expr.totalSize]
  · have hpos := e.size_pos
    simp only [size, Expr.totalSize, reduceCtorEq, iff_false]
    omega

/-- Every expression that is taken off is a node of its own. -/
theorem size_run (n : Nat) (visit : Leaves) : (run n visit).2.size = visit.size - n := by
  induction n generalizing visit with
  | zero => rfl
  | succ n ih =>
    rw [run]
    split
    next hpop =>
      rw [size_eq_zero_iff.2 (pop_eq_none_iff.1 hpop), Nat.zero_sub]
    next out rest hpop =>
      have hsize := size_pop hpop
      rw [ih]
      omega

/-- What has been handed out comes in front of what is still to be visited. -/
theorem numbers_run (n : Nat) (visit : Leaves) :
    (run n visit).1 ++ (run n visit).2.stack.flatMap Expr.numbers =
      visit.stack.flatMap Expr.numbers := by
  induction n generalizing visit with
  | zero => rfl
  | succ n ih =>
    rw [run]
    split
    · rfl
    next out rest hpop => rw [List.append_assoc, ih, numbers_pop hpop]

theorem size_ofExpr (e : Expr) : (ofExpr e).size = e.size := by
  simp [ofExpr, size, Expr.totalSize]

/-- The stack is empty when every node of the expression has been taken off it, and not
before. -/
theorem stack_run_eq_nil_iff (n : Nat) (e : Expr) :
    (run n (ofExpr e)).2.stack = [] ↔ e.size ≤ n := by
  rw [← size_eq_zero_iff, size_run, size_ofExpr]
  omega

theorem run_size (e : Expr) : (run e.size (ofExpr e)).1 = e.numbers := by
  have hnumbers := numbers_run e.size (ofExpr e)
  rw [(stack_run_eq_nil_iff e.size e).2 (Nat.le_refl _)] at hnumbers
  simpa [ofExpr] using hnumbers

end Leaves

/-! ## Whole texts -/

/-- An expression that was typed uses exactly the numbers that were typed.  The visit that
finds them takes every node off its stack once, ends then, and hands out the leaves from
left to right. -/
theorem Expr.usesExactly_iff_perm_literals {text : String} {e : Expr}
    (h : parse text = .ok e) :
    (∀ values : List Nat, e.usesExactly values = true ↔ values.Perm (literals text)) ∧
      ∀ f : Expr, f.leafValues = f.numbers ∧
        (∀ n, (Leaves.run n (.ofExpr f)).2.stack = [] ↔ f.size ≤ n) ∧
        (Leaves.run f.size (.ofExpr f)).1 = f.numbers := by
  refine ⟨fun values => ?_, fun f => ?_⟩
  · have hnumbers := numbers_of_parse h
    have hinjective : Function.Injective fun (n : Nat) => (n : Rat) := Nat.cast_injective
    rw [usesExactly_iff, ← List.map_perm_map_iff hinjective]
    exact ⟨fun hvalues => hvalues.symm.trans hnumbers, fun hvalues => hnumbers.trans hvalues.symm⟩
  · exact ⟨f.leafValues_eq_numbers, fun n => Leaves.stack_run_eq_nil_iff n f,
      Leaves.run_size f⟩

/-- `8 / (3 - 8 / 3)` uses two eights and two threes, and not fewer. -/
theorem Expr.usesExactly_iff_perm_literals_eights_and_threes :
    parse "8 / (3 - 8 / 3)" = .ok eightsAndThrees ∧
      literals "8 / (3 - 8 / 3)" = [8, 3, 8, 3] ∧
      eightsAndThrees.usesExactly [3, 3, 8, 8] = true ∧
      eightsAndThrees.usesExactly [3, 8] = false ∧
      eightsAndThrees.leafValues = eightsAndThrees.numbers ∧ eightsAndThrees.size = 7 ∧
      (Leaves.run 6 (.ofExpr eightsAndThrees)).2.stack ≠ [] := by
  have hparse : parse "8 / (3 - 8 / 3)" = .ok eightsAndThrees := by decide +kernel
  have hliterals : literals "8 / (3 - 8 / 3)" = [8, 3, 8, 3] := by decide +kernel
  have hsize : eightsAndThrees.size = 7 := by decide +kernel
  obtain ⟨huses, hvisit⟩ := usesExactly_iff_perm_literals hparse
  obtain ⟨hleaves, hended, -⟩ := hvisit eightsAndThrees
  rw [hliterals] at huses
  refine ⟨hparse, hliterals, (huses _).2 (by decide), ?_, hleaves, hsize, ?_⟩
  · rw [← Bool.not_eq_true, huses]
    decide
  · rw [ne_eq, hended, hsize]
    decide

end TwentyFour
