import TwentyFour.Proofs.FirstOccurrence

/-!
# The search without any memory

The plain search is the search as one would write it down first.  It looks at
every two positions of every state and tries every symbol there, keeps every
state that comes out, and drops repetitions only among the answers.  It shares
`combine` and the order of expressions with the search proper, and neither its
pairs, nor its rounds, nor any hash set.

* `positionPairs` lists the pairs by their positions.  `pairs_eq_positionPairs`
  says that `pairs` is this list.
* `State.plainChildren`, `plainRound` and `plainSolve` are the plain search.
  `size_of_mem_plainRounds` says that it ends with finished states.
* `State.sameFirsts_children`, `sameFirsts_nextRound` and `sameFirsts_lastRound`
  carry first occurrences through one state, one round and a whole run.
* `solve_eq_plainSolve` is the result: both searches find the same expressions
  in the same order, however the numbers are arranged.
-/

namespace TwentyFour

/-! ## Pairs by position -/

section Positions

variable {α : Type}

/-- The members at two positions, and the others. -/
def pairAt (xs : List α) (i j : Nat) : Option (Pair α) :=
  match xs[i]?, xs[j]? with
  | some x, some y => some ⟨x, y, (xs.eraseIdx j).eraseIdx i⟩
  | _, _ => none

/-- The pairs at all positions `i < j`, the earlier `i` first. -/
def positionPairs (xs : List α) : List (Pair α) :=
  (List.range xs.length).flatMap fun i =>
    (List.range' (i + 1) (xs.length - (i + 1))).filterMap (pairAt xs i)

theorem selections_eq_filterMap (xs : List α) :
    selections xs =
      (List.range xs.length).filterMap fun j => xs[j]?.map fun y => (y, xs.eraseIdx j) := by
  induction xs with
  | nil => rfl
  | cons x xs ih =>
    rw [selections, ih, List.length_cons, List.range_succ_eq_map, List.filterMap_cons,
      List.filterMap_map, List.map_filterMap]
    simp [Function.comp_def]

/-- A pair of a longer list that does not use its first member. -/
theorem pairAt_cons_succ (x : α) (xs : List α) (i j : Nat) :
    pairAt (x :: xs) (i + 1) (j + 1) =
      (pairAt xs i j).map fun p => ⟨p.left, p.right, x :: p.rest⟩ := by
  simp only [pairAt, List.getElem?_cons_succ, List.eraseIdx_cons_succ]
  split <;> simp_all

/-- A pair of a longer list that uses its first member. -/
theorem pairAt_cons_zero (x : α) (xs : List α) (j : Nat) :
    pairAt (x :: xs) 0 (j + 1) = xs[j]?.map fun y => ⟨x, y, xs.eraseIdx j⟩ := by
  simp only [pairAt, List.getElem?_cons_zero, List.getElem?_cons_succ,
    List.eraseIdx_cons_succ, List.eraseIdx_cons_zero]
  cases xs[j]? <;> rfl

/-- The pairs of a list stand in the order of their positions. -/
theorem pairs_eq_positionPairs (xs : List α) : pairs xs = positionPairs xs := by
  induction xs with
  | nil => rfl
  | cons x xs ih =>
    have hfirst : (List.range' 1 xs.length).filterMap (pairAt (x :: xs) 0) =
        (selections xs).map fun selection => ⟨x, selection.1, selection.2⟩ := by
      rw [List.range'_succ_left, ← List.range_eq_range', List.filterMap_map,
        selections_eq_filterMap, List.map_filterMap]
      refine List.filterMap_congr fun j _ => ?_
      rw [Function.comp_apply, pairAt_cons_zero, Option.map_map]
      rfl
    have hothers : ∀ i, (List.range' (i + 2) (xs.length - (i + 1))).filterMap
          (pairAt (x :: xs) (i + 1)) =
        ((List.range' (i + 1) (xs.length - (i + 1))).filterMap (pairAt xs i)).map
          fun p => ⟨p.left, p.right, x :: p.rest⟩ := by
      intro i
      rw [List.range'_succ_left, List.filterMap_map, List.map_filterMap]
      exact List.filterMap_congr fun j _ => pairAt_cons_succ x xs i j
    have hpairs : pairs (x :: xs) =
        ((selections xs).map fun selection => ⟨x, selection.1, selection.2⟩) ++
          (pairs xs).map fun p => ⟨p.left, p.right, x :: p.rest⟩ := rfl
    rw [hpairs, ih, positionPairs, positionPairs, List.length_cons,
      List.range_succ_eq_map, List.flatMap_cons, List.flatMap_map, List.map_flatMap]
    simp only [Nat.add_sub_add_right, Nat.zero_add, Nat.succ_eq_add_one,
      Nat.add_sub_cancel, hfirst, hothers]

end Positions

/-! ## The plain search -/

/-- What the symbols make of two expressions, in order.  A result with a value
that an earlier symbol has produced is skipped. -/
def plainResults (left right : Expr) : List Expr :=
  firstOn Expr.value [] (Symbol.all.filterMap fun symbol => combine left symbol right)

/-- The states that replace the members at two positions by one result. -/
def State.plainChildren (s : State) : List State :=
  (positionPairs s.members).flatMap fun p =>
    (plainResults p.left p.right).map fun e => .ofList (p.rest ++ [e])

/-- Expands every state by one step. -/
def plainRound (states : List State) : List State :=
  states.flatMap State.plainChildren

/-- Expands every state by some number of steps. -/
def plainRounds : Nat → List State → List State
  | 0, states => states
  | n + 1, states => plainRounds n (plainRound states)

/-- The states that the plain search ends with: each step takes one member away. -/
def plainFinals (values : List Nat) : List State :=
  plainRounds (values.length - 1) [.ofValues values]

/-- The expressions that the plain search finds, each where it is found first. -/
def plainSolve (values : List Nat) (target : Int) : List Expr :=
  firstOn id [] (((plainFinals values).filterMap State.single?).filter fun e =>
    e.value == some (target : Rat))

/-! ## One state -/

theorem plainResults_eq (left right : Expr) : plainResults left right = results left right :=
  (distinctOn_eq_firstOn Expr.value _).symm

namespace State

theorem ofList_eq_of_perm {es fs : List Expr} (h : es.Perm fs) : ofList es = ofList fs := by
  rw [ofList, ofList, Expr.sort, Expr.sort, sortBy_eq_of_perm h]

/-- Trying a pair of members once finds every child that trying it at every
position finds, and finds it at the same place. -/
theorem sameFirsts_children (s : State) : SameFirsts s.children s.plainChildren := by
  rw [plainChildren, ← pairs_eq_positionPairs]
  simp only [plainResults_eq]
  refine sameFirsts_flatMap_distinctOn fun p hp q hq hsides => ?_
  obtain ⟨hleft, hright⟩ := Prod.mk.inj hsides
  have hrest : p.rest.Perm q.rest := rest_perm_of_mem_pairs hp hq hleft hright
  rw [hleft, hright]
  refine List.map_congr_left fun e _ => ?_
  exact ofList_eq_of_perm (hrest.append_right [e])

theorem size_of_mem_plainChildren {s child : State} (h : child ∈ s.plainChildren) :
    child.size + 1 = s.size :=
  size_of_mem_children (s.sameFirsts_children.symm.subset h)

end State

/-! ## One round and a whole run -/

theorem sameFirsts_nextRound {states states' : List State} (h : SameFirsts states states') :
    SameFirsts (nextRound states) (plainRound states') :=
  ((sameFirsts_distinct _).trans (h.flatMap State.children)).trans
    (sameFirsts_flatMap_congr fun s _ => s.sameFirsts_children)

theorem size_of_mem_plainRounds {n : Nat} {states : List State}
    (h : ∀ s ∈ states, s.size = n + 1) : ∀ s ∈ plainRounds n states, s.size = 1 := by
  induction n generalizing states with
  | zero => exact h
  | succ n ih =>
    refine ih fun child hchild => ?_
    obtain ⟨s, hs, hmem⟩ := List.mem_flatMap.1 hchild
    have hsize := State.size_of_mem_plainChildren hmem
    have hparent := h s hs
    omega

/-- The end of a run, also if there are no states at all. -/
theorem lastRound_eq_lastRound_nextRound {states : List State}
    (h : ∀ s ∈ states, s.isReducible = true) :
    lastRound states = lastRound (nextRound states) := by
  cases states with
  | nil => rfl
  | cons s states => exact lastRound_of_reducible rfl (h s List.mem_cons_self)

/-- A run of the search and a plain run from the same states end alike. -/
theorem sameFirsts_lastRound {n : Nat} {states states' : List State}
    (hsize : ∀ s ∈ states, s.size = n + 1) (h : SameFirsts states states') :
    SameFirsts (lastRound states) (plainRounds n states') := by
  induction n generalizing states states' with
  | zero =>
    rw [lastRound_of_not_reducible]
    · exact h
    · intro s hs
      have hone := hsize s (List.mem_of_head? hs)
      rw [State.isReducible, hone]
      rfl
  | succ n ih =>
    rw [lastRound_eq_lastRound_nextRound]
    · refine ih (fun child hchild => ?_) (sameFirsts_nextRound h)
      obtain ⟨s, hs, hmem⟩ := mem_nextRound.1 hchild
      have hchildSize := State.size_of_mem_children hmem
      have hparent := hsize s hs
      omega
    · intro s hs
      have hparent := hsize s hs
      rw [State.isReducible, decide_eq_true_iff]
      omega

/-! ## The same answers -/

theorem solve_eq_reaching {values : List Nat} (h : values ≠ []) (target : Int) :
    solve values target = reaching target (lastRound [State.ofValues values]) := by
  unfold solve search
  rw [if_neg (by simpa using h)]
  rfl

theorem size_ofValues {values : List Nat} (h : values ≠ []) :
    ∀ s ∈ [State.ofValues values], s.size = values.length - 1 + 1 := by
  intro s hs
  have hpos := List.length_pos_iff.2 h
  rw [List.mem_singleton.1 hs, State.ofValues, State.size_ofList, List.length_map]
  omega

theorem plainSolve_eq_of_perm {values values' : List Nat} (h : values'.Perm values)
    (target : Int) : plainSolve values' target = plainSolve values target := by
  have hstart : State.ofValues values' = State.ofValues values :=
    State.ofList_eq_of_perm (h.map _)
  rw [plainSolve, plainSolve, plainFinals, plainFinals, hstart, h.length_eq]

theorem solve_eq_plainSolve_self {values : List Nat} (h : values ≠ []) (target : Int) :
    solve values target = plainSolve values target := by
  have hlast : SameFirsts (lastRound [State.ofValues values]) (plainFinals values) :=
    sameFirsts_lastRound (size_ofValues h) (.refl _)
  have hfound := (hlast.filterMap State.single?).filter fun e =>
    e.value == some (target : Rat)
  rw [solve_eq_reaching h, reaching, hfound.distinct_eq, distinct_eq_firstOn]
  rfl

/-- The search finds the same however the numbers are arranged. -/
theorem solve_eq_of_perm {values values' : List Nat} (h : values'.Perm values)
    (target : Int) : solve values' target = solve values target := by
  by_cases hne : values = []
  · rw [hne] at h ⊢
    rw [List.perm_nil.1 h]
  · have hne' : values' ≠ [] := fun hnil => hne (List.nil_perm.1 (hnil ▸ h))
    rw [solve_eq_plainSolve_self hne', solve_eq_plainSolve_self hne, plainSolve_eq_of_perm h]

/-- The search finds the expressions that the plain search finds, in the same
order and however the numbers are arranged, and the plain search goes on until
every state has one member. -/
theorem solve_eq_plainSolve {values values' : List Nat} (hne : values ≠ [])
    (hperm : values'.Perm values) (target : Int) :
    solve values' target = plainSolve values target ∧
      ∀ s ∈ plainFinals values, s.size = 1 := by
  refine ⟨?_, size_of_mem_plainRounds (size_ofValues hne)⟩
  have hne' : values' ≠ [] := fun hnil => hne (List.nil_perm.1 (hnil ▸ hperm))
  rw [solve_eq_plainSolve_self hne', plainSolve_eq_of_perm hperm]

/-- With 4 as the target the hand 4, 2, 2 has the answers `2 + 4 - 2` and
`2 × 4 ÷ 2`, which the plain search finds six times and four times. -/
theorem solve_eq_plainSolve_four_two_two :
    [2, 2, 4] ≠ [] ∧ [4, 2, 2].Perm [2, 2, 4] ∧
      solve [4, 2, 2] 4 =
        [.compound .additive [⟨false, .number 2⟩, ⟨false, .number 4⟩, ⟨true, .number 2⟩],
          .compound .multiplicative
            [⟨false, .number 2⟩, ⟨false, .number 4⟩, ⟨true, .number 2⟩]] ∧
      ∀ s ∈ plainFinals [2, 2, 4], s.size = 1 := by
  have hne : [2, 2, 4] ≠ [] := by decide
  have hperm : [4, 2, 2].Perm [2, 2, 4] := by decide
  obtain ⟨hsolve, hfinals⟩ := solve_eq_plainSolve hne hperm 4
  refine ⟨hne, hperm, ?_, hfinals⟩
  rw [hsolve]
  decide +kernel

end TwentyFour
