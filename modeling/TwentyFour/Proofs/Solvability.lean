import Mathlib.Algebra.Order.Field.Basic
import Mathlib.Algebra.Order.Ring.Rat
import Mathlib.Data.Multiset.MapFold
import Mathlib.Logic.Relation
import Mathlib.Tactic.NormNum
import TwentyFour.Proofs.Search
import TwentyFour.Proofs.Tree

/-!
# Solvable hands

The search finds something exactly if the target can be reached at all, by any
tree of the four operations over the hand, with negative intermediate values
and in any order.

The bridge is a game on bags of values.  `Reduces` replaces two values of a bag
by what a symbol makes of them, and knows nothing of expressions, states or
pruning.

* `reduces_leaves` plays a tree on its leaves.  A subtree with the value `v` is
  played to `|v|`, since the search never subtracts the larger side:
  `exists_symbol_abs` is the move that this needs.
* `State.exists_child_of_reduces` answers every move on the values of a state
  by a child, so no pruning loses a value, and `exists_finished` answers every
  play by a whole run of the search.
* The other direction reads an answer as a tree, by `Expr.toTree`.
-/

namespace TwentyFour

open Relation

/-! ## Moves on bags of values -/

/-- One move: two values of a bag make place for what a symbol makes of them. -/
inductive Reduces : Multiset Rat → Multiset Rat → Prop where
  | step {symbol : Symbol} {a b c : Rat} (h : symbol.result? a b = some c)
      (rest : Multiset Rat) : Reduces (a ::ₘ b ::ₘ rest) (c ::ₘ rest)

theorem result?_sub (a b : Rat) : Symbol.sub.result? a b = some |a - b| := by
  rw [Symbol.result?, Option.some.injEq]
  split_ifs with hlt
  · rw [abs_sub_comm, abs_of_pos (sub_pos.2 hlt)]
  · rw [abs_of_nonneg (sub_nonneg.2 (not_lt.1 hlt))]

theorem exists_symbol_abs_add (v w : Rat) :
    ∃ symbol : Symbol, symbol.result? |v| |w| = some |v + w| := by
  rcases le_total 0 v with hv | hv
  · rcases le_total 0 w with hw | hw
    · refine ⟨.add, ?_⟩
      rw [abs_of_nonneg hv, abs_of_nonneg hw, abs_of_nonneg (add_nonneg hv hw)]
      rfl
    · refine ⟨.sub, ?_⟩
      rw [result?_sub, abs_of_nonneg hv, abs_of_nonpos hw, sub_neg_eq_add]
  · rcases le_total 0 w with hw | hw
    · refine ⟨.sub, ?_⟩
      rw [result?_sub, abs_of_nonpos hv, abs_of_nonneg hw, abs_sub_comm,
        sub_neg_eq_add, add_comm]
    · refine ⟨.add, ?_⟩
      rw [abs_of_nonpos hv, abs_of_nonpos hw, abs_of_nonpos (add_nonpos hv hw),
        Symbol.result?, neg_add]

/-- Whatever an operation makes of two values, up to its sign a symbol makes it
of their absolute values. -/
theorem exists_symbol_abs {cls : OpClass} {reverse : Bool} {v w x : Rat}
    (h : cls.apply reverse v w = some x) :
    ∃ symbol : Symbol, symbol.result? |v| |w| = some |x| := by
  cases cls with
  | additive =>
    cases reverse with
    | false =>
      obtain rfl : v + w = x := Option.some.inj h
      exact exists_symbol_abs_add v w
    | true =>
      obtain rfl : v - w = x := Option.some.inj h
      obtain ⟨symbol, hsymbol⟩ := exists_symbol_abs_add v (-w)
      rw [abs_neg, ← sub_eq_add_neg] at hsymbol
      exact ⟨symbol, hsymbol⟩
  | multiplicative =>
    cases reverse with
    | false =>
      obtain rfl : v * w = x := Option.some.inj h
      exact ⟨.mul, by rw [abs_mul]; rfl⟩
    | true =>
      simp only [OpClass.apply] at h
      split_ifs at h with hw
      obtain rfl : v / w = x := Option.some.inj h
      refine ⟨.div, ?_⟩
      rw [Symbol.result?, if_neg (abs_ne_zero.2 hw), abs_div]

/-- A tree over non-negative leaves is a play on the bag of its leaves. -/
theorem reduces_leaves {t : Tree} {v : Rat} (h : t.eval = some v)
    (hleaves : ∀ x ∈ t.leaves, 0 ≤ x) (rest : Multiset Rat) :
    ReflTransGen Reduces (t.leaves + rest) (|v| ::ₘ rest) := by
  induction t generalizing v rest with
  | leaf w =>
    obtain rfl : w = v := Option.some.inj h
    have hw : 0 ≤ w := hleaves w (List.mem_singleton_self w)
    rw [abs_of_nonneg hw]
    exact ReflTransGen.refl
  | node cls reverse lhs rhs ihl ihr =>
    obtain ⟨a, b, ha, hb, hv⟩ := Tree.eval_node_eq_some.1 h
    have hl := ihl ha (fun x hx => hleaves x (List.mem_append_left _ hx))
      (rhs.leaves + rest)
    have hr := ihr hb (fun x hx => hleaves x (List.mem_append_right _ hx))
      (|a| ::ₘ rest)
    obtain ⟨symbol, hsymbol⟩ := exists_symbol_abs hv
    have hstart : ((Tree.node cls reverse lhs rhs).leaves : Multiset Rat) + rest =
        lhs.leaves + (rhs.leaves + rest) := by
      rw [Tree.leaves, ← Multiset.coe_add, Multiset.add_assoc]
    have hmiddle : (|a| ::ₘ (rhs.leaves + rest) : Multiset Rat) =
        rhs.leaves + (|a| ::ₘ rest) := (Multiset.add_cons _ _ _).symm
    rw [hstart]
    rw [hmiddle] at hl
    refine (hl.trans hr).tail ?_
    rw [Multiset.cons_swap]
    exact Reduces.step hsymbol rest

/-! ## The search answers every move -/

/-- The values of the members of a state. -/
def State.values (s : State) : Multiset (Option Rat) :=
  (s.members.map Expr.value : List (Option Rat))

theorem State.card_values (s : State) : s.values.card = s.size := by
  simp [values, size]

/-- The symbol that does the same with the sides exchanged. -/
def Symbol.mirror : Symbol → Symbol
  | .add => .add
  | .sub => .sub
  | .mul => .mul
  | .div => .revDiv
  | .revDiv => .div

theorem Symbol.result?_mirror (symbol : Symbol) (a b : Rat) :
    symbol.mirror.result? a b = symbol.result? b a := by
  cases symbol with
  | add => rw [mirror, result?, result?, add_comm]
  | sub => rw [mirror, result?_sub, result?_sub, abs_sub_comm]
  | mul => rw [mirror, result?, result?, mul_comm]
  | div => rfl
  | revDiv => rfl

/-- Members of a state whose values are given. -/
theorem State.exists_members {s : State} {a b : Rat} {rest : Multiset Rat}
    (h : s.values = (a ::ₘ b ::ₘ rest).map some) :
    ∃ x y others, s.members.Perm (x :: y :: others) ∧ x.value = some a ∧
      y.value = some b ∧
      ((others.map Expr.value : List _) : Multiset (Option Rat)) = rest.map some := by
  rw [values, ← Multiset.map_coe, Multiset.map_cons, Multiset.map_cons] at h
  obtain ⟨x, hx, hxa, h⟩ := (Multiset.map_eq_cons ..).2 h
  obtain ⟨y, hy, hyb, h⟩ := (Multiset.map_eq_cons ..).2 h
  obtain ⟨others, hothers⟩ :=
    Quot.exists_rep (((s.members : Multiset Expr).erase x).erase y)
  have hothers : (others : Multiset Expr) =
      ((s.members : Multiset Expr).erase x).erase y := hothers
  refine ⟨x, y, others, ?_, hxa, hyb, ?_⟩
  · rw [← Multiset.coe_eq_coe, ← Multiset.cons_coe, ← Multiset.cons_coe, hothers,
      Multiset.cons_erase hy, Multiset.cons_erase hx]
  · rw [← Multiset.map_coe, hothers, h]

/-- Every move on the values of a state is answered by a child. -/
theorem State.exists_child_of_reduces {values : List Nat} {s : State}
    (hs : s.Sound values) {vs ws : Multiset Rat} (hvalues : s.values = vs.map some)
    (h : Reduces vs ws) : ∃ child ∈ s.children, child.values = ws.map some := by
  obtain @⟨symbol, a, b, c, hresult, rest⟩ := h
  obtain ⟨x, y, others, hperm, hx, hy, hothers⟩ := exists_members hvalues
  obtain ⟨p, hp, hsides, hrest⟩ := exists_mem_pairs hperm
  -- the pair may stand the other way round, and then the mirrored symbol is used
  have hcombine : ∃ symbol e, combine p.left symbol p.right = some e ∧
      e.value = some c := by
    have hmem : ∀ e ∈ [p.left, p.right], e.Canonical := by
      intro e he
      refine hs.canonical e ((perm_of_mem_pairs hp).mem_iff.1 ?_)
      simp only [List.mem_cons, List.not_mem_nil, or_false] at he ⊢
      rcases he with he | he
      · exact Or.inl he
      · exact Or.inr (Or.inl he)
    have hl := hmem p.left (by simp)
    have hr := hmem p.right (by simp)
    rcases hsides with ⟨hleft, hright⟩ | ⟨hleft, hright⟩
    · rw [← hleft] at hx
      rw [← hright] at hy
      have hvalue := value_combine hl hr hx hy symbol
      rw [hresult, Option.bind_eq_some_iff] at hvalue
      obtain ⟨e, he, hc⟩ := hvalue
      exact ⟨symbol, e, he, hc⟩
    · rw [← hright] at hx
      rw [← hleft] at hy
      have hvalue := value_combine hl hr hy hx symbol.mirror
      rw [Symbol.result?_mirror, hresult, Option.bind_eq_some_iff] at hvalue
      obtain ⟨e, he, hc⟩ := hvalue
      exact ⟨symbol.mirror, e, he, hc⟩
  obtain ⟨symbol', e, he, hc⟩ := hcombine
  obtain ⟨child, hchild, e', hsame, hmembers⟩ := exists_child hp he
  refine ⟨child, hchild, ?_⟩
  have hnew := hmembers.trans (hrest.cons e')
  rw [State.values, Multiset.coe_eq_coe.2 (hnew.map Expr.value), List.map_cons,
    ← Multiset.cons_coe, hothers, hsame, hc, Multiset.map_cons]

/-! ## The search answers every play -/

/-- What holds of the states of one round of a search of `values`. -/
structure RoundSound (values : List Nat) (states : List State) : Prop where
  sound : ∀ s ∈ states, s.Sound values
  uniform : ∀ s ∈ states, ∀ s' ∈ states, s.size = s'.size

theorem RoundSound.nextRound {values : List Nat} {states : List State}
    (h : RoundSound values states) : RoundSound values (nextRound states) := by
  refine ⟨?_, ?_⟩
  · intro child hchild
    obtain ⟨s, hs, hmem⟩ := mem_nextRound.1 hchild
    exact (h.sound s hs).child hmem
  · intro child hchild child' hchild'
    obtain ⟨s, hs, hmem⟩ := mem_nextRound.1 hchild
    obtain ⟨s', hs', hmem'⟩ := mem_nextRound.1 hchild'
    have hsize := State.size_of_mem_children hmem
    have hsize' := State.size_of_mem_children hmem'
    have hsame := h.uniform s hs s' hs'
    omega

theorem roundSound_start (values : List Nat) :
    RoundSound values [State.ofValues values] := by
  refine ⟨?_, ?_⟩
  · intro s hs
    rw [List.mem_singleton.1 hs]
    exact State.sound_ofValues values
  · intro s hs s' hs'
    rw [List.mem_singleton.1 hs, List.mem_singleton.1 hs']

/-- Every play on the values of a state that ends with one value is answered by
a finished state with that value. -/
theorem exists_finished {values : List Nat} {vs : Multiset Rat} {v : Rat}
    (hplay : ReflTransGen Reduces vs {v}) {states : List State}
    (hround : RoundSound values states) {s : State} (hs : s ∈ states)
    (hvalues : s.values = vs.map some) :
    ∃ final ∈ lastRound states, final.values = {some v} := by
  induction hplay using ReflTransGen.head_induction_on generalizing states s with
  | refl =>
    have hsize := s.card_values
    rw [hvalues, Multiset.map_singleton, Multiset.card_singleton] at hsize
    refine ⟨s, ?_, by rw [hvalues, Multiset.map_singleton]⟩
    rw [lastRound_of_not_reducible]
    · exact hs
    · intro first hfirst
      have hsame := hround.uniform first (List.mem_of_head? hfirst) s hs
      rw [State.isReducible, decide_eq_false_iff_not]
      omega
  | head hmove _ ih =>
    obtain ⟨child, hchild, hchildValues⟩ :=
      State.exists_child_of_reduces (hround.sound s hs) hvalues hmove
    have hsize := State.size_of_mem_children hchild
    have hpos : 0 < child.size := by
      rw [← child.card_values, hchildValues, Multiset.card_map]
      obtain ⟨-, -⟩ := hmove
      simp
    obtain ⟨first, hfirst⟩ : ∃ first, states.head? = some first := by
      cases states with
      | nil => simp at hs
      | cons first rest => exact ⟨first, rfl⟩
    have hsame := hround.uniform first (List.mem_of_head? hfirst) s hs
    have hreducible : first.isReducible = true := by
      rw [State.isReducible, decide_eq_true_iff]
      omega
    rw [lastRound_of_reducible hfirst hreducible]
    exact ih hround.nextRound (mem_nextRound.2 ⟨s, hs, hchild⟩) hchildValues

theorem values_ofValues (values : List Nat) :
    (State.ofValues values).values =
      ((values.map fun (v : Nat) => (v : Rat) : List Rat) : Multiset Rat).map some := by
  have hperm := (State.members_ofList_perm
    (values.map fun (v : Nat) => Expr.number (v : Rat))).map Expr.value
  rw [State.values, State.ofValues, Multiset.coe_eq_coe.2 hperm, Multiset.map_coe,
    List.map_map, List.map_map]
  refine congrArg _ (List.map_congr_left fun v _ => ?_)
  exact Expr.value_number _

/-! ## The search decides solvability -/

/-- The search finds something exactly if some tree over the numbers of the hand
has the target as its value. -/
theorem solve_ne_nil_iff (values : List Nat) (target : Int) (htarget : 0 ≤ target) :
    solve values target ≠ [] ↔
      ∃ t : Tree, t.leaves.Perm (values.map fun (v : Nat) => (v : Rat)) ∧
        t.eval = some (target : Rat) := by
  constructor
  · intro hne
    obtain ⟨e, he⟩ := List.exists_mem_of_ne_nil _ hne
    obtain ⟨hcanonical, hvalue, hnumbers⟩ := sound_of_mem_solve he
    refine ⟨e.toTree, ?_, ?_⟩
    · rw [Expr.leaves_toTree hcanonical]
      exact hnumbers
    · rw [Expr.eval_toTree hcanonical, hvalue]
  · intro htree
    obtain ⟨t, hleaves, heval⟩ := htree
    have hpos : ∀ x ∈ t.leaves, 0 ≤ x := by
      intro x hx
      obtain ⟨v, -, rfl⟩ := List.mem_map.1 (hleaves.mem_iff.1 hx)
      exact Nat.cast_nonneg v
    have hcast : (0 : Rat) ≤ target := by exact_mod_cast htarget
    have hplay := reduces_leaves heval hpos 0
    rw [Multiset.add_zero, Multiset.coe_eq_coe.2 hleaves, abs_of_nonneg hcast] at hplay
    obtain ⟨final, hfinal, hvalues⟩ := exists_finished hplay (roundSound_start values)
      (List.mem_singleton_self _) (values_ofValues values)
    obtain ⟨e, hmembers, hvalue⟩ : ∃ e, final.members = [e] ∧
        e.value = some (target : Rat) := by
      rw [State.values, ← Multiset.coe_singleton, Multiset.coe_eq_coe,
        List.perm_singleton, List.map_eq_singleton_iff] at hvalues
      exact hvalues
    have hvalues : values ≠ [] := by
      intro hnil
      rw [hnil, List.map_nil, List.perm_nil] at hleaves
      exact t.leaves_ne_nil hleaves
    have he : e ∈ solve values target :=
      mem_solve.2 ⟨hvalues, hvalue, final, hfinal, hmembers⟩
    exact List.ne_nil_of_mem he

/-- The hand 1, 3, 5, 13 is solvable by `(3 - 5) × (1 - 13)`, a tree that the
search never builds. -/
theorem solve_ne_nil_one_three_five_thirteen :
    (0 : Int) ≤ 24 ∧ solve [1, 3, 5, 13] 24 ≠ [] := by
  refine ⟨by decide, (solve_ne_nil_iff [1, 3, 5, 13] 24 (by decide)).2 ?_⟩
  refine ⟨.node .multiplicative false
    (.node .additive true (.leaf 3) (.leaf 5))
    (.node .additive true (.leaf 1) (.leaf 13)), ?_, ?_⟩
  · simp only [Tree.leaves, List.map_cons, List.map_nil]
    decide
  · simp only [Tree.eval, Option.bind_some, OpClass.apply]
    norm_num

end TwentyFour
