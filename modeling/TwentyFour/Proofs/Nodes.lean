import TwentyFour.Proofs.Tree

/-!
# The nodes of an expression

The nodes of an expression are the expression itself and, in a compound, the nodes of its
operands.  What is known of an expression is often known of every node of it.

* `HasNode.canonical` carries the invariant down to the nodes.
* `HasNode.of_splice` says where the nodes of a spliced expression come from: but for the
  compound itself they are nodes of one of the two sides.
* `Tree.Occurs` is the same notion for literal trees, and `HasNode.occurs_toTree` leads
  from one to the other.
* `Tree.Occurs.exists_replace` exchanges a subtree for another with the same value.
-/

namespace TwentyFour

namespace Expr

/-- The second expression is a node of the first. -/
inductive HasNode : Expr → Expr → Prop where
  | self (e : Expr) : HasNode e e
  | operand {cls : OpClass} {ops : List (Operand Expr)} {o : Operand Expr} {n : Expr}
      (ho : o ∈ ops) (h : HasNode o.expr n) : HasNode (.compound cls ops) n

theorem HasNode.of_mem_operands {e n : Expr} {o : Operand Expr} (ho : o ∈ e.operands)
    (h : o.expr.HasNode n) : e.HasNode n := by
  cases e with
  | number v => simp [operands] at ho
  | compound cls ops => exact .operand ho h

theorem HasNode.trans {e n m : Expr} (hen : e.HasNode n) (hnm : n.HasNode m) :
    e.HasNode m := by
  induction hen with
  | self e => exact hnm
  | operand ho _ ih => exact .operand ho (ih hnm)

theorem HasNode.canonical {e n : Expr} (h : e.HasNode n) (he : e.Canonical) :
    n.Canonical := by
  induction h with
  | self e => exact he
  | operand ho _ ih => exact ih (he.canonical_of_mem ho)

/-- What an expression contributes to a compound are nodes of it. -/
theorem HasNode.of_mem_terms {e n : Expr} {cls : OpClass} {reverse : Bool}
    {o : Operand Expr} (ho : o ∈ e.terms cls reverse) (h : o.expr.HasNode n) :
    e.HasNode n := by
  by_cases hcls : e.cls? = some cls
  · rw [terms_of_cls?_eq hcls, List.mem_map] at ho
    obtain ⟨p, hp, rfl⟩ := ho
    exact .of_mem_operands hp h
  · rw [terms_of_cls?_ne hcls, List.mem_singleton] at ho
    rw [ho, term_expr] at h
    exact h

/-- Below a spliced compound there are only nodes of its two sides. -/
theorem HasNode.of_splice {cls : OpClass} {lhs rhs n : Expr} {reverse : Bool}
    (h : (splice cls lhs rhs reverse).HasNode n) :
    n = splice cls lhs rhs reverse ∨ lhs.HasNode n ∨ rhs.HasNode n := by
  have hperm := operands_splice_perm cls lhs rhs reverse
  generalize hsplice : splice cls lhs rhs reverse = e at h hperm ⊢
  cases h with
  | self => exact .inl rfl
  | operand ho h =>
    rcases List.mem_append.1 (hperm.mem_iff.1 ho) with ho | ho
    · exact .inr (.inl (.of_mem_terms ho h))
    · exact .inr (.inr (.of_mem_terms ho h))

end Expr

/-! ## Subtrees -/

namespace Tree

/-- The first tree is a subtree of the second. -/
inductive Occurs (s : Tree) : Tree → Prop where
  | refl : Occurs s s
  | left {cls : OpClass} {reverse : Bool} {lhs rhs : Tree} (h : Occurs s lhs) :
      Occurs s (.node cls reverse lhs rhs)
  | right {cls : OpClass} {reverse : Bool} {lhs rhs : Tree} (h : Occurs s rhs) :
      Occurs s (.node cls reverse lhs rhs)

theorem Occurs.trans {s t u : Tree} (hst : s.Occurs t) (htu : t.Occurs u) :
    s.Occurs u := by
  induction htu with
  | refl => exact hst
  | left _ ih => exact .left ih
  | right _ ih => exact .right ih

/-- Every subtree of a tree with a value has one. -/
theorem Occurs.isSome_eval {s t : Tree} (h : s.Occurs t) (ht : t.eval.isSome) :
    s.eval.isSome := by
  induction h with
  | refl => exact ht
  | left _ ih =>
    obtain ⟨x, hx⟩ := Option.isSome_iff_exists.1 ht
    obtain ⟨v, w, hv, -, -⟩ := eval_node_eq_some.1 hx
    exact ih (by rw [hv]; rfl)
  | right _ ih =>
    obtain ⟨x, hx⟩ := Option.isSome_iff_exists.1 ht
    obtain ⟨v, w, -, hw, -⟩ := eval_node_eq_some.1 hx
    exact ih (by rw [hw]; rfl)

/-- A subtree can be exchanged for another with the same value.  The value of the whole
and all other leaves stay. -/
theorem Occurs.exists_replace {s t : Tree} (h : s.Occurs t) (u : Tree)
    (heval : u.eval = s.eval) :
    ∃ (t' : Tree) (front back : List Rat), t.leaves = front ++ s.leaves ++ back ∧
      t'.leaves = front ++ u.leaves ++ back ∧ t'.eval = t.eval := by
  induction h with
  | refl => exact ⟨u, [], [], by simp, by simp, heval⟩
  | @left cls reverse lhs rhs _ ih =>
    obtain ⟨lhs', front, back, hleaves, hleaves', heval'⟩ := ih
    refine ⟨.node cls reverse lhs' rhs, front, back ++ rhs.leaves, ?_, ?_, ?_⟩
    · simp [leaves, hleaves]
    · simp [leaves, hleaves']
    · rw [eval, eval, heval']
  | @right cls reverse lhs rhs _ ih =>
    obtain ⟨rhs', front, back, hleaves, hleaves', heval'⟩ := ih
    refine ⟨.node cls reverse lhs rhs', lhs.leaves ++ front, back, ?_, ?_, ?_⟩
    · simp [leaves, hleaves]
    · simp [leaves, hleaves']
    · rw [eval, eval, heval']

end Tree

namespace Expr

theorem occurs_treeFrom (cls : OpClass) (t : Tree) (ops : List (Operand Expr)) :
    t.Occurs (treeFrom cls t ops) := by
  induction ops generalizing t with
  | nil => exact .refl
  | cons o rest ih => exact (Tree.Occurs.left .refl).trans (ih _)

theorem occurs_treeFrom_of_mem {cls : OpClass} {ops : List (Operand Expr)}
    {o : Operand Expr} (ho : o ∈ ops) (t : Tree) :
    o.expr.toTree.Occurs (treeFrom cls t ops) := by
  induction ops generalizing t with
  | nil => simp at ho
  | cons p rest ih =>
    rcases List.mem_cons.1 ho with rfl | ho
    · exact (Tree.Occurs.right .refl).trans (occurs_treeFrom cls _ rest)
    · exact ih ho _

theorem occurs_toTree_of_mem {cls : OpClass} {ops : List (Operand Expr)}
    {o : Operand Expr} (ho : o ∈ ops) :
    o.expr.toTree.Occurs (compound cls ops).toTree := by
  cases ops with
  | nil => simp at ho
  | cons p rest =>
    rw [toTree]
    rcases List.mem_cons.1 ho with rfl | ho
    · exact occurs_treeFrom cls _ rest
    · exact occurs_treeFrom_of_mem ho _

/-- The tree of a node is a subtree. -/
theorem HasNode.occurs_toTree {e n : Expr} (h : e.HasNode n) :
    n.toTree.Occurs e.toTree := by
  induction h with
  | self e => exact .refl
  | operand ho _ ih => exact ih.trans (occurs_toTree_of_mem ho)

end Expr

end TwentyFour
