import TwentyFour.Proofs.Values

/-!
# Literal trees

A literal tree is an arithmetic expression as it is written: a binary tree of
the four operations over numbers, with no order and no flattening.  It is what
the rest of the theory compares canonical expressions with.

* `Tree.eval` is strict rational evaluation and `Tree.canon` is the canonical
  expression, both by recursion on the tree.  `value_canon` says that they
  agree wherever the tree has a value.
* `Expr.toTree` reads a canonical expression back as a literal tree, operand by
  operand.  `canon_toTree`, `eval_toTree` and `leaves_toTree` say that nothing
  changes on the way.
-/

namespace TwentyFour

/-- An arithmetic expression as it is written.  A node adds or multiplies, or
subtracts or divides if `reverse` is set. -/
inductive Tree where
  | leaf (value : Rat)
  | node (cls : OpClass) (reverse : Bool) (lhs rhs : Tree)

namespace Tree

/-- The value of a tree, or nothing if a divisor anywhere in it is zero. -/
def eval : Tree → Option Rat
  | .leaf v => some v
  | .node cls reverse lhs rhs =>
    lhs.eval.bind fun v => rhs.eval.bind fun w => cls.apply reverse v w

/-- The canonical expression of a tree, built from the leaves up. -/
def canon : Tree → Expr
  | .leaf v => .number v
  | .node cls reverse lhs rhs => lhs.canon.join cls rhs.canon reverse

/-- The numbers at the leaves, from left to right. -/
def leaves : Tree → List Rat
  | .leaf v => [v]
  | .node _ _ lhs rhs => lhs.leaves ++ rhs.leaves

theorem leaves_ne_nil (t : Tree) : t.leaves ≠ [] := by
  induction t with
  | leaf v => simp [leaves]
  | node cls reverse lhs rhs ihl ihr => simp [leaves, ihl]

theorem canonical_canon (t : Tree) : t.canon.Canonical := by
  induction t with
  | leaf v => exact .number v
  | node cls reverse lhs rhs ihl ihr =>
    rw [canon, Expr.join_eq_splice ihl]
    exact ihl.splice ihr cls reverse

theorem canon_node (cls : OpClass) (reverse : Bool) (lhs rhs : Tree) :
    (node cls reverse lhs rhs).canon =
      Expr.splice cls lhs.canon rhs.canon reverse :=
  Expr.join_eq_splice lhs.canonical_canon cls rhs.canon reverse

theorem eval_node_eq_some {cls : OpClass} {reverse : Bool} {lhs rhs : Tree} {x : Rat} :
    (node cls reverse lhs rhs).eval = some x ↔
      ∃ v w, lhs.eval = some v ∧ rhs.eval = some w ∧
        cls.apply reverse v w = some x := by
  simp only [eval, Option.bind_eq_some_iff]
  constructor
  · intro h
    obtain ⟨v, hv, w, hw, hx⟩ := h
    exact ⟨v, w, hv, hw, hx⟩
  · intro h
    obtain ⟨v, w, hv, hw, hx⟩ := h
    exact ⟨v, hv, w, hw, hx⟩

/-- A tree with a value has a canonical expression with the same value. -/
theorem value_canon {t : Tree} {v : Rat} (h : t.eval = some v) :
    t.canon.value = some v := by
  induction t generalizing v with
  | leaf w =>
    rw [canon, Expr.value_number]
    exact h
  | node cls reverse lhs rhs ihl ihr =>
    obtain ⟨a, b, ha, hb, hv⟩ := eval_node_eq_some.1 h
    rw [canon_node, Expr.value_splice (ihl ha) (ihr hb), hv]

/-- Where both sides have a value, the canonical expression of a node has one
exactly if the node has. -/
theorem value_canon_node {lhs rhs : Tree} {v w : Rat} (hl : lhs.eval = some v)
    (hr : rhs.eval = some w) (cls : OpClass) (reverse : Bool) :
    (node cls reverse lhs rhs).canon.value = (node cls reverse lhs rhs).eval := by
  rw [canon_node, Expr.value_splice (value_canon hl) (value_canon hr), eval, hl, hr]
  rfl

theorem numbers_canon_perm (t : Tree) : t.canon.numbers.Perm t.leaves := by
  induction t with
  | leaf v => rw [canon, Expr.numbers, leaves]
  | node cls reverse lhs rhs ihl ihr =>
    rw [canon_node]
    exact (Expr.numbers_splice_perm _ _ _ _).trans (ihl.append ihr)

end Tree

/-! ## Expressions as trees -/

namespace Expr

mutual

/-- A canonical expression as a tree: the operands from left to right. -/
def toTree : Expr → Tree
  | .number v => .leaf v
  | .compound cls [] => .leaf cls.identity
  | .compound cls (⟨_, e⟩ :: rest) => treeFrom cls e.toTree rest

/-- Continues a tree by operands. -/
def treeFrom (cls : OpClass) (t : Tree) : List (Operand Expr) → Tree
  | [] => t
  | ⟨reverse, e⟩ :: rest => treeFrom cls (.node cls reverse t e.toTree) rest

end

theorem leaves_treeFrom {cls : OpClass} {ops : List (Operand Expr)}
    (h : ∀ o ∈ ops, o.expr.toTree.leaves = o.expr.numbers) (t : Tree) :
    (treeFrom cls t ops).leaves = t.leaves ++ operandNumbers ops := by
  induction ops generalizing t with
  | nil => simp [treeFrom, operandNumbers]
  | cons o rest ih =>
    have ho := h o List.mem_cons_self
    rw [treeFrom, ih fun p hp => h p (List.mem_cons_of_mem o hp), operandNumbers,
      Tree.leaves, ho, List.append_assoc]

theorem eval_treeFrom {cls : OpClass} {ops : List (Operand Expr)}
    (h : ∀ o ∈ ops, o.expr.toTree.eval = o.expr.value) (t : Tree) :
    (treeFrom cls t ops).eval = t.eval.bind fun v => foldValue cls v ops := by
  induction ops generalizing t with
  | nil => simp [treeFrom, foldValue]
  | cons o rest ih =>
    have ho := h o List.mem_cons_self
    rw [treeFrom, ih fun p hp => h p (List.mem_cons_of_mem o hp), Tree.eval, ho]
    simp only [foldValue_cons, Option.bind_assoc]

/-- Operands that are stored as they are contributed come after what is there. -/
theorem terms_treeFrom {cls : OpClass} {ops : List (Operand Expr)}
    (hcanon : ∀ o ∈ ops, o.expr.toTree.canon = o.expr)
    (hflat : ∀ o ∈ ops, o.expr.cls? ≠ some cls)
    (hsettled : ∀ o ∈ ops, o.Settled cls) (t : Tree) :
    ((treeFrom cls t ops).canon.terms cls false).Perm
      (t.canon.terms cls false ++ ops) := by
  induction ops generalizing t with
  | nil => simp [treeFrom]
  | cons o rest ih =>
    have hmem : o ∈ o :: rest := List.mem_cons_self
    have hstored : o.expr.terms cls o.reverse = [o] := by
      have hself := hsettled o hmem
      rw [Operand.Settled, Operand.turn, Bool.bne_false] at hself
      rw [terms_of_cls?_ne (hflat o hmem), hself]
    have hrest := ih (fun p hp => hcanon p (List.mem_cons_of_mem o hp))
      (fun p hp => hflat p (List.mem_cons_of_mem o hp))
      (fun p hp => hsettled p (List.mem_cons_of_mem o hp))
      (.node cls o.reverse t o.expr.toTree)
    have hnode := terms_splice cls t.canon o.expr o.reverse false
    rw [Bool.bne_false, hstored] at hnode
    rw [Tree.canon_node, hcanon o hmem] at hrest
    have hall := hrest.trans (hnode.append_right rest)
    rw [List.append_assoc, List.singleton_append] at hall
    exact hall

theorem cls?_treeFrom {cls : OpClass} {ops : List (Operand Expr)} {t : Tree}
    (h : t.canon.cls? = some cls ∨ ops ≠ []) :
    (treeFrom cls t ops).canon.cls? = some cls := by
  induction ops generalizing t with
  | nil => simpa [treeFrom] using h
  | cons o rest ih =>
    refine ih (Or.inl ?_)
    rw [Tree.canon_node, cls?_splice]

/-- The numbers of a canonical expression are the leaves of its tree. -/
theorem leaves_toTree {e : Expr} (h : e.Canonical) : e.toTree.leaves = e.numbers := by
  induction h with
  | number v => rw [toTree, Tree.leaves, numbers]
  | @compound cls ops hops hsub ih =>
    cases ops with
    | nil => exact absurd hops.two_le (by simp)
    | cons o rest =>
      rw [toTree, leaves_treeFrom fun p hp => ih p (List.mem_cons_of_mem o hp),
        ih o List.mem_cons_self, numbers, operandNumbers]

/-- The value of a canonical expression is the value of its tree. -/
theorem eval_toTree {e : Expr} (h : e.Canonical) : e.toTree.eval = e.value := by
  induction h with
  | number v => rw [toTree, Tree.eval, value_number]
  | @compound cls ops hops hsub ih =>
    cases ops with
    | nil => exact absurd hops.two_le (by simp)
    | cons o rest =>
      have hforward : o.reverse = false := hops.head_forward
      rw [toTree, eval_treeFrom fun p hp => ih p (List.mem_cons_of_mem o hp),
        ih o List.mem_cons_self, value_compound, foldValue_cons, hforward]
      cases o.expr.value with
      | none => rfl
      | some v => simp [OpClass.apply_eq_map]

/-- A canonical expression is the canonical expression of its tree. -/
theorem canon_toTree {e : Expr} (h : e.Canonical) : e.toTree.canon = e := by
  induction h with
  | number v => rw [toTree, Tree.canon]
  | @compound cls ops hops hsub ih =>
    rcases ops with _ | ⟨o, rest⟩
    · exact absurd hops.two_le (by simp)
    have hne : rest ≠ [] := by
      intro hnil
      have hlength := hops.two_le
      simp [hnil] at hlength
    have hmem : o ∈ o :: rest := List.mem_cons_self
    have hfirst : o.expr.terms cls false = [o] := by
      rw [terms_of_cls?_ne (hops.flat o hmem), term_false, ← hops.head_forward]
    have hterms := terms_treeFrom (fun p hp => ih p (List.mem_cons_of_mem o hp))
      (fun p hp => hops.flat p (List.mem_cons_of_mem o hp))
      (fun p hp => hops.settled p (List.mem_cons_of_mem o hp)) o.expr.toTree
    rw [ih o hmem, hfirst, List.singleton_append] at hterms
    have hcls : (treeFrom cls o.expr.toTree rest).canon.cls? = some cls :=
      cls?_treeFrom (Or.inr hne)
    have hcanonical := (treeFrom cls o.expr.toTree rest).canonical_canon
    rw [hcanonical.terms_false hcls] at hterms
    have hsorted := (hcanonical.operands_of_cls? hcls).sorted
    rw [toTree, eq_compound_of_cls? hcls, hsorted.eq_of_perm hops.sorted hterms]

end Expr

end TwentyFour
