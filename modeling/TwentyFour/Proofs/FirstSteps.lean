import TwentyFour.Expr.Text
import TwentyFour.Proofs.Answers
import TwentyFour.Proofs.Nodes
import TwentyFour.Proofs.RoundTrip

/-!
# Hints are first steps

A hint names one operation on two numbers of an expression.  Whoever performs it is left
with one number less, and can still get to the value of the expression.

* `FirstStep` is an operation on two numbers.  `FirstStep.Keeps` says that it can be
  performed on two of some numbers and that a value can still be reached with the result
  in their place.
* `FirstStep.IsHintOf` says that a hint names the step: it is the first that is done in a
  compound of numbers only.
* `exists_firstStep` says what the descent into the first compound operand ends at, and
  `Canonical.exists_isHintOf` reads the step off it.
* `FirstStep.IsHintOf.keeps` performs the step inside the whole expression, by
  exchanging the subtree that it stands for.
* `exists_isHintOf_and_keeps` is the result about expressions and about answers.
-/

namespace TwentyFour

/-- An operation on two numbers. -/
structure FirstStep where
  cls : OpClass
  reverse : Bool
  lhs : Rat
  rhs : Rat

namespace FirstStep

/-- The step as it is written. -/
def text (glyphs : Glyphs) (step : FirstStep) : String :=
  rationalText step.lhs ++ " " ++ glyphs.operator step.cls step.reverse ++ " " ++
    rationalText step.rhs

/-- The exact result of the step, or nothing if it divides by zero. -/
def result? (step : FirstStep) : Option Rat :=
  step.cls.apply step.reverse step.lhs step.rhs

/-- The step as a tree. -/
def toTree (step : FirstStep) : Tree :=
  .node step.cls step.reverse (.leaf step.lhs) (.leaf step.rhs)

/-- The step can be performed on two of the numbers, and a tree over the others and its
result has the value `x`. -/
def Keeps (step : FirstStep) (numbers : List Rat) (x : Rat) : Prop :=
  ∃ (others : List Rat) (v : Rat) (t : Tree),
    numbers.Perm (step.lhs :: step.rhs :: others) ∧ step.result? = some v ∧
      t.leaves.Perm (v :: others) ∧ t.eval = some x

/-- The hint of the expression names the step.  Going into the first compound operand
ends at a node of numbers only, and the step is done on the first two of them. -/
structure IsHintOf (step : FirstStep) (e : Expr) : Prop where
  node : e.HasNode e.firstStep
  operands : ∃ rest, e.firstStep = .compound step.cls
      (⟨false, .number step.lhs⟩ :: ⟨step.reverse, .number step.rhs⟩ :: rest) ∧
    ∀ o ∈ rest, o.expr.isNumber = true
  text : ∀ glyphs, e.hint glyphs = step.text glyphs

end FirstStep

namespace Expr

/-! ## The descent -/

theorem exists_eq_number {e : Expr} (h : e.isNumber = true) : ∃ v, e = .number v := by
  cases e with
  | number v => exact ⟨v, rfl⟩
  | compound cls ops => simp [isNumber] at h

/-- The descent goes on in a compound operand, or ends if there is none. -/
theorem firstStepOr_cases (whole : Expr) (ops : List (Operand Expr)) :
    (firstStepOr whole ops = whole ∧ ∀ o ∈ ops, o.expr.isNumber = true) ∨
      ∃ o ∈ ops, o.expr.isNumber = false ∧ firstStepOr whole ops = o.expr.firstStep := by
  induction ops with
  | nil => exact .inl ⟨by rw [firstStepOr], by simp⟩
  | cons o rest ih =>
    rw [firstStepOr]
    cases hnumber : o.expr.isNumber with
    | false => exact .inr ⟨o, List.mem_cons_self, hnumber, by simp⟩
    | true =>
      rw [if_pos rfl]
      rcases ih with ⟨hstop, hrest⟩ | ⟨p, hp, hgoes⟩
      · exact .inl ⟨hstop, List.forall_mem_cons.2 ⟨hnumber, hrest⟩⟩
      · exact .inr ⟨p, List.mem_cons_of_mem o hp, hgoes⟩

/-- The descent ends at a node of the expression that is made of numbers only. -/
theorem exists_firstStep {e : Expr} (he : e.isNumber = false) :
    ∃ cls ops, e.firstStep = .compound cls ops ∧ e.HasNode (.compound cls ops) ∧
      ∀ o ∈ ops, o.expr.isNumber = true := by
  induction e using Expr.induct with
  | number v => simp [isNumber] at he
  | compound cls ops ih =>
    rw [firstStep]
    rcases firstStepOr_cases (.compound cls ops) ops with ⟨hstop, hops⟩ | ⟨o, ho, hgoes⟩
    · exact ⟨cls, ops, hstop, .self _, hops⟩
    · obtain ⟨hcompound, hstep⟩ := hgoes
      obtain ⟨c, ps, heq, hnode, hps⟩ := ih o ho hcompound
      exact ⟨c, ps, hstep.trans heq, .operand ho hnode, hps⟩

/-- The hint of a canonical compound names a step. -/
theorem Canonical.exists_isHintOf {e : Expr} (he : e.Canonical)
    (hcompound : e.isNumber = false) : ∃ step : FirstStep, step.IsHintOf e := by
  obtain ⟨cls, ops, heq, hnode, hops⟩ := exists_firstStep hcompound
  have hcanonical : CanonicalOperands cls ops := (hnode.canonical he).operands_of_cls? rfl
  obtain ⟨⟨r, a⟩, ⟨s, b⟩, rest, rfl⟩ : ∃ o p rest, ops = o :: p :: rest := by
    match ops, hcanonical.two_le with
    | o :: p :: rest, _ => exact ⟨o, p, rest, rfl⟩
  obtain ⟨v, rfl⟩ := exists_eq_number (hops ⟨r, a⟩ (by simp))
  obtain ⟨w, rfl⟩ := exists_eq_number (hops ⟨s, b⟩ (by simp))
  obtain rfl : r = false := hcanonical.head_forward
  refine ⟨⟨cls, s, v, w⟩, ⟨heq ▸ hnode, ⟨rest, heq, fun o ho => ?_⟩, fun glyphs => ?_⟩⟩
  · exact hops o (by simp [ho])
  · simp only [hint, heq, render, FirstStep.text]

end Expr

/-! ## Performing the step -/

theorem FirstStep.IsHintOf.occurs {step : FirstStep} {e : Expr} (h : step.IsHintOf e) :
    step.toTree.Occurs e.toTree := by
  obtain ⟨rest, heq, -⟩ := h.operands
  have hnode := h.node.occurs_toTree
  rw [heq, Expr.toTree, Expr.treeFrom] at hnode
  refine .trans ?_ hnode
  simp only [FirstStep.toTree, Expr.toTree]
  exact Expr.occurs_treeFrom step.cls _ rest

/-- With the result of the step in the place of its two numbers, a tree has the value of
the expression. -/
theorem FirstStep.IsHintOf.keeps {step : FirstStep} {e : Expr} (h : step.IsHintOf e)
    (he : e.Canonical) {x : Rat} (hvalue : e.value = some x) : step.Keeps e.numbers x := by
  have heval : e.toTree.eval = some x := (Expr.eval_toTree he).trans hvalue
  have hstep : step.toTree.eval = step.result? := by
    simp [FirstStep.toTree, Tree.eval, FirstStep.result?]
  obtain ⟨v, hv⟩ := Option.isSome_iff_exists.1 (h.occurs.isSome_eval (by rw [heval]; rfl))
  obtain ⟨t, front, back, hleaves, hleaves', heval'⟩ :=
    h.occurs.exists_replace (.leaf v) hv.symm
  refine ⟨front ++ back, v, t, ?_, hstep.symm.trans hv, ?_, heval'.trans heval⟩
  · rw [← Expr.leaves_toTree he, hleaves]
    simp only [FirstStep.toTree, Tree.leaves, List.append_assoc, List.cons_append, List.nil_append]
    exact List.perm_middle.trans (List.perm_middle.cons _)
  · rw [hleaves']
    simp only [Tree.leaves, List.append_assoc, List.cons_append, List.nil_append]
    exact List.perm_middle

/-- The hint of a compound with a value names a step on two of its numbers after which its
value can still be reached.  The hint of an answer on two numbers or more names a step on
two of the numbers of the hand after which the target can still be reached. -/
theorem exists_isHintOf_and_keeps :
    (∀ e : Expr, e.Built → e.isNumber = false → ∀ x, e.value = some x →
      ∃ step : FirstStep, step.IsHintOf e ∧ step.Keeps e.leafValues x) ∧
    ∀ values target, 2 ≤ values.length → ∀ e ∈ solve values target,
      ∃ step : FirstStep, step.IsHintOf e ∧
        step.Keeps (values.map fun (v : Nat) => (v : Rat)) (target : Rat) := by
  constructor
  · intro e he hcompound x hx
    obtain ⟨step, hstep⟩ := he.canonical.exists_isHintOf hcompound
    rw [Expr.leafValues_eq_numbers]
    exact ⟨step, hstep, hstep.keeps he.canonical hx⟩
  · intro values target hlength e he
    obtain ⟨hcanonical, hvalue, hnumbers⟩ := sound_of_mem_solve he
    have hcompound : e.isNumber = false := by
      cases e with
      | number v =>
        have hone := hnumbers.length_eq
        rw [Expr.numbers, List.length_map] at hone
        simp only [List.length_singleton] at hone
        omega
      | compound cls ops => rfl
    obtain ⟨step, hstep⟩ := hcanonical.exists_isHintOf hcompound
    obtain ⟨others, v, t, hperm, hrest⟩ := hstep.keeps hcanonical hvalue
    exact ⟨step, hstep, others, v, t, hnumbers.symm.trans hperm, hrest⟩

/-- The hint `8 ÷ 3` keeps 24 in reach of the numbers of `8 ÷ (3 - 8 ÷ 3)`, and the hint
`3 * 3` keeps 9 in reach of the hand 3, 0, 3. -/
theorem exists_isHintOf_and_keeps_eight_over_three :
    Expr.eightsAndThrees.Built ∧ Expr.eightsAndThrees.isNumber = false ∧
      Expr.eightsAndThrees.value = some 24 ∧
      (∃ step : FirstStep, step.IsHintOf Expr.eightsAndThrees ∧
        step.text .unicode = "8 ÷ 3" ∧ step.Keeps [8, 3, 8, 3] 24) ∧
      zeroAndThrees ∈ solve [3, 0, 3] 9 ∧
      ∃ step : FirstStep, step.IsHintOf zeroAndThrees ∧ step.text .ascii = "3 * 3" ∧
        step.Keeps [3, 0, 3] 9 := by
  have hquotient : ((Expr.number 8).join .multiplicative (.number 3) true).Built :=
    .join (.number 8) (.number 3) .multiplicative true
  have hbuilt : Expr.eightsAndThrees.Built :=
    .join (.number 8) (.join (.number 3) hquotient .additive true) .multiplicative true
  have hvalue : Expr.eightsAndThrees.value = some 24 := by decide +kernel
  have hnumbers : Expr.eightsAndThrees.leafValues = [8, 3, 8, 3] := by
    rw [Expr.leafValues_eq_numbers]
    decide +kernel
  have hmem : zeroAndThrees ∈ solve [3, 0, 3] 9 := by
    rw [solve_eq_plainSolve_self (by decide)]
    decide +kernel
  obtain ⟨hbuilds, hanswers⟩ := exists_isHintOf_and_keeps
  obtain ⟨step, hhint, hkeeps⟩ := hbuilds _ hbuilt (by decide +kernel) _ hvalue
  obtain ⟨step', hhint', hkeeps'⟩ := hanswers [3, 0, 3] 9 (by decide) _ hmem
  rw [hnumbers] at hkeeps
  refine ⟨hbuilt, by decide +kernel, hvalue, ⟨step, hhint, ?_, hkeeps⟩, hmem, step', hhint',
    ?_, by simpa using hkeeps'⟩
  · rw [← hhint.text]
    decide +kernel
  · rw [← hhint'.text]
    decide +kernel

end TwentyFour
