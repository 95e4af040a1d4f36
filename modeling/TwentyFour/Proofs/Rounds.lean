import Mathlib.Logic.Function.Iterate
import TwentyFour.Proofs.FirstOccurrence
import TwentyFour.Proofs.Solvability

/-!
# The rounds of the search

The search of `n` numbers makes `n - 1` rounds, and after each of them all states are
different and of one size, so that the first state speaks for all of them.

* `roundStates values k` are the states after `k` rounds, whether or not the search makes
  them.  `AfterRound` is what holds of them.
* `State.children_ne_nil` is progress: two members can be added, so no state is left
  without a child.
* `sound_of_mem_roundStates`, `size_of_mem_roundStates`, `sorted_of_mem_roundStates` and
  `nodup_roundStates` are kept by a round; `afterRound_roundStates` collects them.
* `rounds_eq_iterate` says which rounds are made when all states of a round are of one
  size, and `rounds_ofValues` says it of a hand.
* `search_makes_all_rounds` is the result.
-/

namespace TwentyFour

/-! ## One state -/

namespace State

/-- Two members with values can always be added. -/
theorem children_ne_nil {values : List Nat} {s : State} (hs : s.Sound values)
    (hsize : 1 < s.size) : s.children ≠ [] := by
  obtain ⟨x, y, rest, hmembers⟩ : ∃ x y rest, s.members = x :: y :: rest := by
    rw [size] at hsize
    rcases hm : s.members with _ | ⟨x, _ | ⟨y, rest⟩⟩
    · simp [hm] at hsize
    · simp [hm] at hsize
    · exact ⟨x, y, rest, rfl⟩
  obtain ⟨p, hp, -, -⟩ := exists_mem_pairs (List.Perm.of_eq hmembers)
  have hin : ∀ e ∈ p.left :: p.right :: p.rest, e ∈ s.members :=
    fun e he => (perm_of_mem_pairs hp).mem_iff.1 he
  have hleft := hin p.left List.mem_cons_self
  have hright := hin p.right (List.mem_cons_of_mem _ List.mem_cons_self)
  obtain ⟨v, hv⟩ := Option.isSome_iff_exists.1 (hs.valued _ hleft)
  obtain ⟨w, hw⟩ := Option.isSome_iff_exists.1 (hs.valued _ hright)
  have hsum := value_combine (hs.canonical _ hleft) (hs.canonical _ hright) hv hw .add
  obtain ⟨e, he, -⟩ := Option.bind_eq_some_iff.1 hsum
  obtain ⟨child, hchild, -⟩ := exists_child hp he
  exact List.ne_nil_of_mem hchild

/-- The children of a state, without the hash sets. -/
theorem children_eq_firstOn (s : State) :
    s.children = (firstOn (fun p => (p.left, p.right)) [] (pairs s.members)).flatMap fun p =>
      (firstOn Expr.value [] (Symbol.all.filterMap fun symbol =>
        combine p.left symbol p.right)).map (replace p) := by
  simp only [children, distinctPairs, results, distinctOn_eq_firstOn]

theorem sorted_ofList (es : List Expr) : SortedBy Expr.compare (ofList es).members :=
  sortedBy_sortBy es

/-- A child keeps its members in order. -/
theorem sorted_of_mem_children {s child : State} (h : child ∈ s.children) :
    SortedBy Expr.compare child.members := by
  obtain ⟨p, -, symbol, e, -, rfl⟩ := combine_of_mem_children h
  exact sorted_ofList _

end State

/-! ## The states after some rounds -/

/-- The states after `k` rounds from a hand of numbers. -/
def roundStates (values : List Nat) (k : Nat) : List State :=
  nextRound^[k] [State.ofValues values]

/-- What holds of the states after `k` rounds from a hand of numbers. -/
structure AfterRound (values : List Nat) (k : Nat) (states : List State) : Prop where
  nonempty : states ≠ []
  nodup : states.Nodup
  size : ∀ s ∈ states, s.size = values.length - k
  sorted : ∀ s ∈ states, SortedBy Expr.compare s.members
  valued : ∀ s ∈ states, ∀ e ∈ s.members, e.value.isSome
  leaves : ∀ s ∈ states,
    (s.members.flatMap Expr.leafValues).Perm (values.map fun (v : Nat) => (v : Rat))

section RoundStates

variable {values : List Nat} {k : Nat} {s : State}

theorem roundStates_zero (values : List Nat) :
    roundStates values 0 = [State.ofValues values] := rfl

theorem roundStates_succ (values : List Nat) (k : Nat) :
    roundStates values (k + 1) = nextRound (roundStates values k) :=
  Function.iterate_succ_apply' nextRound k _

theorem mem_roundStates_zero : s ∈ roundStates values 0 ↔ s = State.ofValues values := by
  rw [roundStates_zero, List.mem_singleton]

theorem mem_roundStates_succ :
    s ∈ roundStates values (k + 1) ↔ ∃ t ∈ roundStates values k, s ∈ t.children := by
  rw [roundStates_succ, mem_nextRound]

theorem sound_of_mem_roundStates (h : s ∈ roundStates values k) : s.Sound values := by
  induction k generalizing s with
  | zero => exact mem_roundStates_zero.1 h ▸ State.sound_ofValues values
  | succ k ih =>
    obtain ⟨t, ht, hchild⟩ := mem_roundStates_succ.1 h
    exact (ih ht).child hchild

theorem size_of_mem_roundStates (h : s ∈ roundStates values k) :
    s.size + k = values.length := by
  induction k generalizing s with
  | zero =>
    rw [mem_roundStates_zero.1 h, State.ofValues, State.size_ofList, List.length_map]
    rfl
  | succ k ih =>
    obtain ⟨t, ht, hchild⟩ := mem_roundStates_succ.1 h
    have hsize := State.size_of_mem_children hchild
    have hparent := ih ht
    omega

theorem sorted_of_mem_roundStates (h : s ∈ roundStates values k) :
    SortedBy Expr.compare s.members := by
  cases k with
  | zero => exact mem_roundStates_zero.1 h ▸ State.sorted_ofList _
  | succ k =>
    obtain ⟨t, -, hchild⟩ := mem_roundStates_succ.1 h
    exact State.sorted_of_mem_children hchild

theorem nodup_roundStates (values : List Nat) (k : Nat) : (roundStates values k).Nodup := by
  cases k with
  | zero => exact List.nodup_singleton _
  | succ k =>
    rw [roundStates_succ]
    exact nodup_distinct _

/-- As long as there are two members to combine, a round leaves states behind. -/
theorem roundStates_ne_nil (h : k < values.length) : roundStates values k ≠ [] := by
  induction k with
  | zero => exact List.cons_ne_nil _ _
  | succ k ih =>
    obtain ⟨t, ht⟩ := List.exists_mem_of_ne_nil _ (ih (Nat.lt_of_succ_lt h))
    have hsize := size_of_mem_roundStates ht
    have hchildren := State.children_ne_nil (sound_of_mem_roundStates ht) (by omega)
    obtain ⟨child, hchild⟩ := List.exists_mem_of_ne_nil _ hchildren
    exact List.ne_nil_of_mem (mem_roundStates_succ.2 ⟨t, ht, hchild⟩)

theorem afterRound_roundStates (h : k < values.length) :
    AfterRound values k (roundStates values k) where
  nonempty := roundStates_ne_nil h
  nodup := nodup_roundStates values k
  size s hs := by
    have hsize := size_of_mem_roundStates hs
    omega
  sorted _ hs := sorted_of_mem_roundStates hs
  valued _ hs := (sound_of_mem_roundStates hs).valued
  leaves s hs := by
    have hnumbers := (sound_of_mem_roundStates hs).numbers
    have hleaves : Expr.leafValues = Expr.numbers := funext Expr.leafValues_eq_numbers
    rwa [hleaves]

/-- All states of a round can be reduced, or none. -/
theorem isReducible_of_mem_roundStates (h : s ∈ roundStates values k) :
    s.isReducible = decide (k + 1 < values.length) := by
  have hsize := size_of_mem_roundStates h
  rw [State.isReducible, decide_eq_decide]
  omega

/-- The state of a last round has one member. -/
theorem exists_single_of_mem_roundStates (hs : s ∈ roundStates values k)
    (hlast : k + 1 = values.length) : ∃ e, s.single? = some e := by
  have hsize := size_of_mem_roundStates hs
  obtain ⟨e, he⟩ := List.length_eq_one_iff.1 (show s.members.length = 1 by
    rw [State.size] at hsize
    omega)
  exact ⟨e, single?_eq_some.2 he⟩

end RoundStates

/-! ## The rounds that are made -/

/-- If the first state can be reduced for `n` rounds, and not any more after them, then
these rounds are made. -/
theorem rounds_eq_iterate {n : Nat} {states : List State}
    (hbefore : ∀ k < n, ∃ s, (nextRound^[k] states).head? = some s ∧ s.isReducible = true)
    (hafter : ∀ s, (nextRound^[n] states).head? = some s → s.isReducible = false) :
    rounds states = (List.range n).map fun k => nextRound^[k + 1] states := by
  induction n generalizing states with
  | zero => exact rounds_of_not_reducible hafter
  | succ n ih =>
    obtain ⟨s, hhead, hreducible⟩ := hbefore 0 (Nat.succ_pos n)
    have hs : states.head? = some s := hhead
    have hrest : rounds (nextRound states) =
        (List.range n).map fun k => nextRound^[k + 1] (nextRound states) :=
      ih (fun k hk => hbefore (k + 1) (Nat.succ_lt_succ hk)) hafter
    rw [rounds_of_reducible hs hreducible, hrest, List.range_succ_eq_map, List.map_cons,
      List.map_map]
    rfl

/-- The search of a hand makes one round less than there are numbers. -/
theorem rounds_ofValues {values : List Nat} (h : values ≠ []) :
    rounds [State.ofValues values] =
      (List.range (values.length - 1)).map fun k => roundStates values (k + 1) := by
  have hpos := List.length_pos_iff.2 h
  refine rounds_eq_iterate (fun k hk => ?_) fun s hs => ?_
  · have hne : roundStates values k ≠ [] := roundStates_ne_nil (by omega)
    obtain ⟨s, rest, hstates⟩ := List.exists_cons_of_ne_nil hne
    have hmem : s ∈ roundStates values k := by simp [hstates]
    refine ⟨s, by rw [← roundStates, hstates]; rfl, ?_⟩
    rw [isReducible_of_mem_roundStates hmem, decide_eq_true_iff]
    omega
  · rw [isReducible_of_mem_roundStates (k := values.length - 1) (List.mem_of_head? hs),
      decide_eq_false_iff_not]
    omega

theorem lastRound_ofValues {values : List Nat} (h : values ≠ []) :
    lastRound [State.ofValues values] = roundStates values (values.length - 1) := by
  rw [lastRound, rounds_ofValues h]
  cases values.length - 1 with
  | zero => rfl
  | succ n => simp [List.range_succ]

theorem zipIdx_map_range {α : Type} (n : Nat) (f : Nat → α) :
    ((List.range n).map f).zipIdx = (List.range n).map fun k => (f k, k) := by
  refine List.ext_getElem (by simp) fun k hk hk' => ?_
  simp

/-- The search makes a round for every number but one.  After every round there are states,
all different, of one size and sorted, with values and with the numbers of the hand as their
leaves.  So whether the first state can be reduced is whether any of them can, every round
is reported with its number and its count, and every state at the end gives its one member
to the selection of answers. -/
theorem search_makes_all_rounds {values : List Nat} (h : values ≠ []) (target : Int) :
    (∀ k < values.length, AfterRound values k (roundStates values k) ∧
      ∀ s ∈ roundStates values k, s.isReducible = decide (k + 1 < values.length)) ∧
    rounds [State.ofValues values] =
      (List.range (values.length - 1)).map (fun k => roundStates values (k + 1)) ∧
    (search values target).log values target =
      (List.range (values.length - 1)).map (fun k =>
        "DEBUG round " ++ (k + 1).repr ++ ": " ++ (roundStates values (k + 1)).length.repr ++
          " distinct states") ++
      ["DEBUG [" ++ naturalsText ", " values ++ "] -> " ++ integerText target ++ ": " ++
        (solve values target).length.repr ++ " solution(s)"] ∧
    (∀ s ∈ roundStates values (values.length - 1), ∃ e, s.single? = some e) ∧
    solve values target = reaching target (roundStates values (values.length - 1)) := by
  have hpos := List.length_pos_iff.2 h
  refine ⟨fun k hk => ⟨afterRound_roundStates hk, fun s => isReducible_of_mem_roundStates⟩,
    rounds_ofValues h, ?_, fun s hs => exists_single_of_mem_roundStates hs (by omega), ?_⟩
  · have hempty : values.isEmpty = false := by simpa using h
    rw [Findings.log, hempty, if_neg Bool.false_ne_true]
    have hcounts : (search values target).counts =
        (List.range (values.length - 1)).map fun k => (roundStates values (k + 1)).length := by
      rw [search, hempty, if_neg Bool.false_ne_true]
      simp only [rounds_ofValues h, List.map_map]
      rfl
    rw [hcounts, zipIdx_map_range, List.map_map]
    rfl
  · rw [← lastRound_ofValues h, solve, search]
    simp [h, lastRound]

/-- The hand 1, 2, 3 takes two rounds, and `1 + 2 * 3` is what it finds for 7. -/
theorem search_makes_all_rounds_one_two_three :
    [1, 2, 3] ≠ [] ∧ (rounds [State.ofValues [1, 2, 3]]).map List.length = [13, 33] ∧
      (search [1, 2, 3] 7).log [1, 2, 3] 7 =
        ["DEBUG round 1: 13 distinct states", "DEBUG round 2: 33 distinct states",
          "DEBUG [1, 2, 3] -> 7: 1 solution(s)"] ∧
      AfterRound [1, 2, 3] 1 (roundStates [1, 2, 3] 1) ∧
      AfterRound [1, 2, 3] 2 (roundStates [1, 2, 3] 2) := by
  have hne : [1, 2, 3] ≠ [] := List.cons_ne_nil 1 [2, 3]
  obtain ⟨hafter, hrounds, hlog, -, hsolve⟩ := search_makes_all_rounds hne 7
  have hchildren := funext State.children_eq_firstOn
  have hcounts : [(roundStates [1, 2, 3] 1).length, (roundStates [1, 2, 3] 2).length,
      (solve [1, 2, 3] 7).length] = [13, 33, 1] := by
    rw [hsolve, reaching]
    simp only [roundStates_succ, roundStates_zero, nextRound, distinct_eq_firstOn, hchildren,
      List.length_cons, List.length_nil]
    decide +kernel
  obtain ⟨hone, htwo, hfound⟩ : (roundStates [1, 2, 3] 1).length = 13 ∧
      (roundStates [1, 2, 3] 2).length = 33 ∧ (solve [1, 2, 3] 7).length = 1 := by
    simpa using hcounts
  have hrange : List.range ([1, 2, 3].length - 1) = [0, 1] := rfl
  rw [hrange, List.map_cons, List.map_cons, List.map_nil] at hrounds hlog
  refine ⟨hne, ?_, ?_, (hafter 1 (by decide)).1, (hafter 2 (by decide)).1⟩
  · rw [hrounds, List.map_cons, List.map_cons, List.map_nil, hone, htwo]
  · rw [hlog, hone, htwo, hfound]
    decide +kernel

end TwentyFour
