import Mathlib.Data.List.Forall2
import TwentyFour.Proofs.Tree

/-!
# The laws behind canonical equality

Two literal trees have the same canonical expression exactly when the laws of
the two groups lead from one to the other.

* `Tree.Equiv` is the congruence of those laws, and `Equiv.canon_eq` says that
  none of them changes the canonical expression.
* `Tree.parts` flattens a tree into signed parts and `Tree.chain` applies them
  again from left to right.  `equiv_chain_parts` and `exists_chain` say that
  the laws flatten every tree, `chain_perm` and `chain_settle` that the order
  of the parts and the direction of an identity do not matter.
* `canon_eq_canon_iff` is the result: both sides of an equality of canonical
  expressions are brought to a chain with the same parts.
-/

namespace TwentyFour

namespace Tree

/-! ## The laws -/

/-- The congruence generated by the laws of sums and of products.  With both
values of its two flags `assoc` is the four laws that take the parentheses out
of `a + (b + d)`, `a + (b - d)`, `a - (b + d)` and `a - (b - d)`, and the same
four for products.  `identity` is for an identity that is kept as one operand. -/
inductive Equiv : Tree → Tree → Prop where
  | refl (t : Tree) : Equiv t t
  | symm {t u : Tree} (h : Equiv t u) : Equiv u t
  | trans {t u v : Tree} (htu : Equiv t u) (huv : Equiv u v) : Equiv t v
  | node (cls : OpClass) (reverse : Bool) {a a' b b' : Tree} (hl : Equiv a a')
      (hr : Equiv b b') : Equiv (.node cls reverse a b) (.node cls reverse a' b')
  | comm (cls : OpClass) (a b : Tree) :
      Equiv (.node cls false a b) (.node cls false b a)
  | assoc (cls : OpClass) (r s : Bool) (a b d : Tree) :
      Equiv (.node cls r a (.node cls s b d))
        (.node cls (s != r) (.node cls r a b) d)
  | identity {cls : OpClass} (a : Tree) {z : Tree}
      (hvalue : z.canon.value = some cls.identity) (hcls : z.canon.cls? ≠ some cls) :
      Equiv (.node cls true a z) (.node cls false a z)

instance : Trans Equiv Equiv Equiv := ⟨Equiv.trans⟩

theorem terms_canon_node (cls : OpClass) (r s : Bool) (a b : Tree) :
    ((node cls r a b).canon.terms cls s).Perm
      (a.canon.terms cls s ++ b.canon.terms cls (r != s)) := by
  rw [canon_node]
  exact Expr.terms_splice cls a.canon b.canon r s

/-- None of the laws changes the canonical expression. -/
theorem Equiv.canon_eq {t u : Tree} (h : Equiv t u) : t.canon = u.canon := by
  induction h with
  | refl t => rfl
  | symm _ ih => exact ih.symm
  | trans _ _ ihtu ihuv => exact ihtu.trans ihuv
  | node cls reverse _ _ ihl ihr => rw [canon_node, canon_node, ihl, ihr]
  | comm cls a b =>
    rw [canon_node, canon_node]
    exact Expr.splice_congr List.perm_append_comm
  | assoc cls r s a b d =>
    rw [canon_node cls r a, canon_node cls (s != r) _ d]
    apply Expr.splice_congr
    have hright := terms_canon_node cls s r b d
    have hleft := terms_canon_node cls r false a b
    rw [Bool.bne_false] at hleft
    have hall := hright.append_left (a.canon.terms cls false)
    rw [← List.append_assoc] at hall
    exact hall.trans (hleft.symm.append_right _)
  | @identity cls a z hvalue hcls =>
    have hneutral := Expr.isNeutral_iff.2 hvalue
    rw [canon_node, canon_node]
    apply Expr.splice_congr
    rw [Expr.terms_of_cls?_ne hcls, Expr.terms_of_cls?_ne hcls, Expr.term_eq, hneutral]
    exact List.Perm.refl _

/-! ## Flattening -/

/-- The signed parts of a tree in a sum or product, where the whole of it is
subtracted or divided by if `reverse` is set. -/
def parts (cls : OpClass) : Tree → Bool → List (Operand Tree)
  | .leaf v, reverse => [⟨reverse, .leaf v⟩]
  | .node c s lhs rhs, reverse =>
    if c = cls then
      lhs.parts cls reverse ++ rhs.parts cls (s != reverse)
    else
      [⟨reverse, .node c s lhs rhs⟩]

/-- Applies parts to a tree, from left to right. -/
def chain (cls : OpClass) (t : Tree) (ps : List (Operand Tree)) : Tree :=
  ps.foldl (fun acc p => .node cls p.reverse acc p.expr) t

@[simp] theorem chain_cons (cls : OpClass) (t : Tree) (p : Operand Tree)
    (ps : List (Operand Tree)) :
    chain cls t (p :: ps) = chain cls (.node cls p.reverse t p.expr) ps := rfl

theorem chain_append (cls : OpClass) (t : Tree) (ps qs : List (Operand Tree)) :
    chain cls t (ps ++ qs) = chain cls (chain cls t ps) qs :=
  List.foldl_append

/-- Parts that agree in their flags and are equivalent as trees. -/
def PartEquiv (p q : Operand Tree) : Prop :=
  p.reverse = q.reverse ∧ Equiv p.expr q.expr

theorem chain_congr {cls : OpClass} {ps qs : List (Operand Tree)}
    (h : List.Forall₂ PartEquiv ps qs) {t u : Tree} (htu : Equiv t u) :
    Equiv (chain cls t ps) (chain cls u qs) := by
  induction h generalizing t u with
  | nil => exact htu
  | @cons p q ps qs hpq _ ih =>
    obtain ⟨hreverse, hexpr⟩ := hpq
    rw [chain_cons, chain_cons, hreverse]
    exact ih (htu.node cls q.reverse hexpr)

theorem chain_head {cls : OpClass} (ps : List (Operand Tree)) {t u : Tree}
    (h : Equiv t u) : Equiv (chain cls t ps) (chain cls u ps) :=
  chain_congr (List.forall₂_same.2 fun p _ => ⟨rfl, .refl p.expr⟩) h

/-- Applying a tree is applying its parts. -/
theorem equiv_chain_parts (cls : OpClass) (r : Bool) (x t : Tree) :
    Equiv (.node cls r x t) (chain cls x (t.parts cls r)) := by
  induction t generalizing x r with
  | leaf v => exact .refl _
  | node c s a b iha ihb =>
    by_cases hc : c = cls
    · subst hc
      rw [parts, if_pos rfl, chain_append]
      calc Equiv (.node c r x (.node c s a b))
            (.node c (s != r) (.node c r x a) b) := .assoc c r s x a b
        Equiv _ (chain c (.node c r x a) (b.parts c (s != r))) := ihb (s != r) _
        Equiv _ (chain c (chain c x (a.parts c r)) (b.parts c (s != r))) :=
          chain_head _ (iha r x)
    · rw [parts, if_neg hc]
      exact .refl _

/-- A tree is its first part with the other parts applied to it. -/
theorem exists_chain (cls : OpClass) (t : Tree) :
    ∃ h rest, t.parts cls false = ⟨false, h⟩ :: rest ∧ Equiv t (chain cls h rest) := by
  induction t with
  | leaf v => exact ⟨_, [], rfl, .refl _⟩
  | node c s a b iha _ =>
    by_cases hc : c = cls
    · subst hc
      obtain ⟨h, rest, hparts, ha⟩ := iha
      refine ⟨h, rest ++ b.parts c s, ?_, ?_⟩
      · rw [parts, if_pos rfl, hparts, Bool.bne_false, List.cons_append]
      · rw [chain_append]
        exact (ha.node c s (.refl b)).trans (equiv_chain_parts c s _ b)
    · exact ⟨.node c s a b, [], by rw [parts, if_neg hc], .refl _⟩

theorem cls?_canon_of_mem_parts {cls : OpClass} {t : Tree} {r : Bool} {p : Operand Tree}
    (hp : p ∈ t.parts cls r) : p.expr.canon.cls? ≠ some cls := by
  induction t generalizing r with
  | leaf v =>
    rw [parts, List.mem_singleton] at hp
    subst hp
    simp [canon, Expr.cls?]
  | node c s a b iha ihb =>
    by_cases hc : c = cls
    · rw [parts, if_pos hc, List.mem_append] at hp
      rcases hp with hp | hp
      · exact iha hp
      · exact ihb hp
    · rw [parts, if_neg hc, List.mem_singleton] at hp
      subst hp
      rw [canon_node, Expr.cls?_splice]
      simpa using hc

theorem sizeOf_le_of_mem_parts {cls : OpClass} {t : Tree} {r : Bool} {p : Operand Tree}
    (hp : p ∈ t.parts cls r) : sizeOf p.expr ≤ sizeOf t := by
  induction t generalizing r with
  | leaf v =>
    rw [parts, List.mem_singleton] at hp
    simp [hp]
  | node c s a b iha ihb =>
    by_cases hc : c = cls
    · rw [parts, if_pos hc, List.mem_append] at hp
      have hsize : sizeOf (node c s a b) =
          1 + sizeOf c + sizeOf s + sizeOf a + sizeOf b := rfl
      rcases hp with hp | hp
      · have := iha hp
        omega
      · have := ihb hp
        omega
    · rw [parts, if_neg hc, List.mem_singleton] at hp
      simp [hp]

/-- The parts of a node in its own class are smaller than the node. -/
theorem sizeOf_lt_of_mem_parts {cls : OpClass} {s r : Bool} {a b : Tree}
    {p : Operand Tree} (hp : p ∈ (node cls s a b).parts cls r) :
    sizeOf p.expr < sizeOf (node cls s a b) := by
  have hsize : sizeOf (node cls s a b) =
      1 + sizeOf cls + sizeOf s + sizeOf a + sizeOf b := rfl
  rw [parts, if_pos rfl, List.mem_append] at hp
  rcases hp with hp | hp
  · have hle := sizeOf_le_of_mem_parts hp
    omega
  · have hle := sizeOf_le_of_mem_parts hp
    omega

/-! ## Order and directions -/

theorem right_comm_mixed (cls : OpClass) (x a b : Tree) :
    Equiv (.node cls false (.node cls true x a) b)
      (.node cls true (.node cls false x b) a) :=
  calc Equiv (.node cls false (.node cls true x a) b)
        (.node cls false b (.node cls true x a)) := .comm cls _ b
    Equiv _ (.node cls true (.node cls false b x) a) := .assoc cls false true b x a
    Equiv _ (.node cls true (.node cls false x b) a) :=
      .node cls true (.comm cls b x) (.refl a)

/-- Two parts may change places. -/
theorem right_comm (cls : OpClass) (r s : Bool) (x a b : Tree) :
    Equiv (.node cls r (.node cls s x a) b) (.node cls s (.node cls r x b) a) := by
  by_cases hrs : r = s
  · -- with one direction `a` and `b` can be grouped, and are then exchanged by `comm`
    subst hrs
    have hleft := Equiv.assoc cls r false x a b
    have hright := Equiv.assoc cls r false x b a
    rw [Bool.false_bne] at hleft hright
    exact (hleft.symm.trans ((Equiv.refl x).node cls r (.comm cls a b))).trans hright
  · cases r with
    | false =>
      cases s with
      | false => exact absurd rfl hrs
      | true => exact right_comm_mixed cls x a b
    | true =>
      cases s with
      | false => exact (right_comm_mixed cls x b a).symm
      | true => exact absurd rfl hrs

theorem chain_perm {cls : OpClass} {ps qs : List (Operand Tree)} (h : ps.Perm qs)
    (t : Tree) : Equiv (chain cls t ps) (chain cls t qs) := by
  induction h generalizing t with
  | nil => exact .refl t
  | cons p _ ih => exact ih _
  | swap p q ps => exact chain_head ps (right_comm cls p.reverse q.reverse t _ _)
  | trans _ _ ih ih' => exact (ih t).trans (ih' t)

/-- Any part that is not reversed may come first. -/
theorem chain_rotate {cls : OpClass} {h k : Tree} {ps qs : List (Operand Tree)}
    (hperm : (⟨false, h⟩ :: ps).Perm (⟨false, k⟩ :: qs)) :
    Equiv (chain cls h ps) (chain cls k qs) := by
  have hmem : (⟨false, k⟩ : Operand Tree) ∈ (⟨false, h⟩ : Operand Tree) :: ps :=
    hperm.mem_iff.2 List.mem_cons_self
  -- `h` is itself the new first part, or changes places with it by `comm`
  rcases List.mem_cons.1 hmem with heq | hmem
  · rw [heq] at hperm
    rw [show h = k from (Operand.mk.inj heq).2.symm]
    exact chain_perm hperm.cons_inv k
  · obtain ⟨front, back, hps⟩ := List.append_of_mem hmem
    have hfront : ps.Perm (⟨false, k⟩ :: (front ++ back)) :=
      hps ▸ List.perm_middle
    have hqs : (⟨false, h⟩ :: (front ++ back)).Perm qs :=
      ((List.Perm.swap _ _ _).trans ((hfront.cons _).symm.trans hperm)).cons_inv
    calc Equiv (chain cls h ps) (chain cls (.node cls false h k) (front ++ back)) :=
          chain_perm hfront h
      Equiv _ (chain cls (.node cls false k h) (front ++ back)) :=
        chain_head _ (.comm cls h k)
      Equiv _ (chain cls k qs) := chain_perm hqs k

/-- A part in the direction in which a compound stores it. -/
def settle (cls : OpClass) (p : Operand Tree) : Operand Tree :=
  ⟨(Expr.term cls p.expr.canon p.reverse).reverse, p.expr⟩

theorem settle_false (cls : OpClass) (t : Tree) :
    settle cls ⟨false, t⟩ = ⟨false, t⟩ := rfl

theorem equiv_settle {cls : OpClass} {p : Operand Tree}
    (hflat : p.expr.canon.cls? ≠ some cls) (x : Tree) :
    Equiv (.node cls p.reverse x p.expr)
      (.node cls (settle cls p).reverse x p.expr) := by
  rw [settle, Expr.term_eq]
  cases p.reverse with
  | false => exact .refl _
  | true =>
    cases hneutral : p.expr.canon.isNeutral cls with
    | false => exact .refl _
    | true => exact .identity x (Expr.isNeutral_iff.1 hneutral) hflat

theorem chain_settle {cls : OpClass} {ps : List (Operand Tree)}
    (hflat : ∀ p ∈ ps, p.expr.canon.cls? ≠ some cls) (t : Tree) :
    Equiv (chain cls t ps) (chain cls t (ps.map (settle cls))) := by
  induction ps generalizing t with
  | nil => exact .refl t
  | cons p ps ih =>
    have hhead := equiv_settle (hflat p List.mem_cons_self) t
    have hrest := ih (fun q hq => hflat q (List.mem_cons_of_mem p hq))
      (.node cls p.reverse t p.expr)
    exact hrest.trans (chain_head _ hhead)

/-! ## Trees with the same canonical expression -/

/-- The parts of a tree, each in the direction in which a compound stores it. -/
def settledParts (cls : OpClass) (t : Tree) : List (Operand Tree) :=
  (t.parts cls false).map (settle cls)

/-- A tree is any of its parts that is not reversed with the others applied to it. -/
theorem equiv_chain_of_perm {cls : OpClass} {t k : Tree} {qs : List (Operand Tree)}
    (hperm : (t.settledParts cls).Perm (⟨false, k⟩ :: qs)) :
    Equiv t (chain cls k qs) := by
  obtain ⟨h, ps, hparts, ht⟩ := exists_chain cls t
  have hflat : ∀ p ∈ ps, p.expr.canon.cls? ≠ some cls := fun p hp =>
    cls?_canon_of_mem_parts (hparts ▸ List.mem_cons_of_mem _ hp)
  rw [settledParts, hparts, List.map_cons, settle_false] at hperm
  exact (ht.trans (chain_settle hflat h)).trans (chain_rotate hperm)

/-- A part as an operand of the canonical expression. -/
def stored (p : Operand Tree) : Operand Expr :=
  ⟨p.reverse, p.expr.canon⟩

theorem terms_canon_perm (cls : OpClass) (t : Tree) (r : Bool) :
    (t.canon.terms cls r).Perm (((t.parts cls r).map (settle cls)).map stored) := by
  induction t generalizing r with
  | leaf v => exact List.Perm.refl _
  | node c s a b iha ihb =>
    by_cases hc : c = cls
    · subst hc
      rw [parts, if_pos rfl, List.map_append, List.map_append]
      exact (terms_canon_node c s r a b).trans ((iha r).append (ihb (s != r)))
    · have hne : (node c s a b).canon.cls? ≠ some cls := by
        rw [canon_node, Expr.cls?_splice]
        simpa using hc
      rw [Expr.terms_of_cls?_ne hne, parts, if_neg hc]
      exact List.Perm.refl _

theorem forall₂_of_map_stored_eq {ps qs : List (Operand Tree)}
    (h : ps.map stored = qs.map stored)
    (ih : ∀ p ∈ ps, ∀ u : Tree, p.expr.canon = u.canon → Equiv p.expr u) :
    List.Forall₂ PartEquiv ps qs := by
  induction ps generalizing qs with
  | nil =>
    rw [List.map_nil, eq_comm, List.map_eq_nil_iff] at h
    rw [h]
    exact .nil
  | cons p ps ihps =>
    cases qs with
    | nil => simp at h
    | cons q qs =>
      rw [List.map_cons, List.map_cons, List.cons.injEq] at h
      obtain ⟨hreverse, hcanon⟩ := Operand.mk.inj h.1
      refine .cons ⟨hreverse, ih p List.mem_cons_self q.expr hcanon⟩ ?_
      exact ihps h.2 fun p' hp' => ih p' (List.mem_cons_of_mem p hp')

/-- Two trees are equivalent if one is a node and what they store agrees part by
part, up to the order. -/
theorem equiv_of_perm {cls : OpClass} {t u : Tree}
    (hperm : ((t.settledParts cls).map stored).Perm ((u.settledParts cls).map stored))
    (ih : ∀ p ∈ t.settledParts cls, ∀ u' : Tree, p.expr.canon = u'.canon →
      Equiv p.expr u') : Equiv t u := by
  -- the parts of `u` in the order of those of `t`: they then agree one by one
  obtain ⟨qs, hqs, hu⟩ :=
    (congrFun₂ (List.eq_map_comp_perm stored) _ _).mpr hperm
  have hall : List.Forall₂ PartEquiv (t.settledParts cls) qs :=
    forall₂_of_map_stored_eq hqs ih
  obtain ⟨h, ps, hparts, -⟩ := exists_chain cls t
  have ht : t.settledParts cls = ⟨false, h⟩ :: ps.map (settle cls) := by
    rw [settledParts, hparts, List.map_cons, settle_false]
  rw [ht] at hall
  cases hall with
  | @cons _ q _ qs hhead hrest =>
    rcases q with ⟨reverse, k⟩
    have hreverse : false = reverse := hhead.1
    subst hreverse
    calc Equiv t (chain cls h (ps.map (settle cls))) :=
          equiv_chain_of_perm (List.Perm.of_eq ht)
      Equiv _ (chain cls k qs) := chain_congr hrest hhead.2
      Equiv _ u := (equiv_chain_of_perm hu.symm).symm

theorem eq_leaf_of_canon {t : Tree} {v : Rat} (h : t.canon = .number v) :
    t = .leaf v := by
  cases t with
  | leaf w =>
    rw [canon, Expr.number.injEq] at h
    rw [h]
  | node cls reverse a b =>
    have hcls := congrArg Expr.cls? h
    rw [canon_node, Expr.cls?_splice] at hcls
    simp [Expr.cls?] at hcls

/-- The laws lead from a tree to every other with the same canonical expression. -/
theorem equiv_of_canon_eq (t u : Tree) (h : t.canon = u.canon) : Equiv t u := by
  induction hsize : sizeOf t using Nat.strong_induction_on generalizing t u with
  | _ n ih =>
    cases t with
    | leaf v =>
      rw [eq_leaf_of_canon h.symm]
      exact .refl _
    | node cls s a b =>
      have ht := terms_canon_perm cls (node cls s a b) false
      have hu := terms_canon_perm cls u false
      rw [← h] at hu
      refine equiv_of_perm (ht.symm.trans hu) fun p hp u' hcanon => ?_
      obtain ⟨q, hq, hpq⟩ := List.mem_map.1 hp
      have hlt : sizeOf q.expr < sizeOf (node cls s a b) := sizeOf_lt_of_mem_parts hq
      rw [← hpq] at hcanon ⊢
      exact ih (sizeOf q.expr) (hsize ▸ hlt) q.expr u' hcanon rfl

/-- Two literal trees have the same canonical expression exactly if they differ
by the laws of the two groups. -/
theorem canon_eq_canon_iff (t u : Tree) : t.canon = u.canon ↔ Equiv t u :=
  ⟨equiv_of_canon_eq t u, Equiv.canon_eq⟩

end Tree

end TwentyFour
