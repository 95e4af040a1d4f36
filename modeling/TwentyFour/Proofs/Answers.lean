import TwentyFour.Proofs.PlainSearch
import TwentyFour.Proofs.Solvability
import TwentyFour.Reply

/-!
# What the search finds

Every answer is right, no answer is given twice, and nothing is found for a
target that only a negative value can reach.

* `usesExactly_iff` says what `Expr.usesExactly` decides.
* `objection?_eq_none_iff` says what an answer must be, `head?_objection?` how an
  objection starts and `praise_eq` how praise does.
* `State.NonNegative` is the invariant of a state that its members are not
  negative, and `solve_eq_nil_of_neg` is what follows for negative targets.
* `solve_ne_nil_of_tree` finds something for the absolute value of every tree
  over the numbers of the hand.
* `nodup_solve_and_forall_mem` is the result about all answers.
-/

namespace TwentyFour

/-! ## The numbers of an expression -/

theorem Expr.usesExactly_iff {e : Expr} {values : List Nat} :
    e.usesExactly values = true ↔
      e.numbers.Perm (values.map fun (v : Nat) => (v : Rat)) := by
  rw [usesExactly, leafValues_eq_numbers, beq_iff_eq, sortBy_eq_iff_perm]

/-- Numbers of a hand are natural numbers. -/
theorem natural_of_perm {numbers : List Rat} {values : List Nat}
    (h : numbers.Perm (values.map fun (v : Nat) => (v : Rat))) :
    ∀ v ∈ numbers, ∃ n : Nat, v = n := by
  intro v hv
  obtain ⟨n, -, hn⟩ := List.mem_map.1 (h.mem_iff.1 hv)
  exact ⟨n, hn.symm⟩

theorem usesExactly_of_mem_solve {values : List Nat} {target : Int} {e : Expr}
    (h : e ∈ solve values target) : e.usesExactly values = true :=
  Expr.usesExactly_iff.2 (sound_of_mem_solve h).2.2

/-! ## Judging an answer -/

theorem objection?_eq_none_iff {e : Expr} {values : List Nat} {target : Int} :
    objection? e values target = none ↔
      e.usesExactly values = true ∧ e.value = some (target : Rat) := by
  rw [objection?]
  cases huses : e.usesExactly values with
  | false => simp
  | true =>
    cases hvalue : e.value with
    | none => simp
    | some v =>
      simp only [Bool.not_true, Bool.false_eq_true, if_false, true_and]
      split_ifs with hv
      · simp [hv]
      · simp [hv]

/-- An objection starts with `Sorry`. -/
theorem head?_objection? {e : Expr} {values : List Nat} {target : Int} {text : String}
    (h : objection? e values target = some text) : text.toList.head? = some 'S' := by
  rw [objection?] at h
  split at h
  · rw [← Option.some.inj h, String.toList_append]
    rfl
  · split at h
    · rw [← Option.some.inj h]
      rfl
    · split at h
      · simp at h
      · rw [← Option.some.inj h, String.toList_append]
        rfl

theorem praise_eq (e : Expr) (answers : List Expr) :
    praise e answers = Reply.right ∨ praise e answers = Reply.unexpected := by
  rw [praise]
  split
  · exact .inl rfl
  · exact .inr rfl

theorem praise_of_mem {e : Expr} {answers : List Expr} (h : e ∈ answers) :
    praise e answers = Reply.right := by
  rw [praise, if_pos (List.contains_iff_mem.2 h)]

/-! ## Nothing is negative -/

/-- What a symbol makes of values that are not negative is not negative. -/
theorem result?_nonneg {symbol : Symbol} {v w x : Rat} (hv : 0 ≤ v) (hw : 0 ≤ w)
    (h : symbol.result? v w = some x) : 0 ≤ x := by
  cases symbol with
  | add =>
    obtain rfl : v + w = x := Option.some.inj h
    exact add_nonneg hv hw
  | sub =>
    rw [result?_sub] at h
    obtain rfl : |v - w| = x := Option.some.inj h
    exact abs_nonneg _
  | mul =>
    obtain rfl : v * w = x := Option.some.inj h
    exact mul_nonneg hv hw
  | div =>
    simp only [Symbol.result?] at h
    split_ifs at h
    obtain rfl : v / w = x := Option.some.inj h
    exact div_nonneg hv hw
  | revDiv =>
    simp only [Symbol.result?] at h
    split_ifs at h
    obtain rfl : w / v = x := Option.some.inj h
    exact div_nonneg hw hv

/-- What a symbol makes of expressions that are not negative is not negative. -/
theorem nonneg_of_combine {left right e : Expr} {symbol : Symbol} (hl : left.Canonical)
    (hr : right.Canonical) {v w x : Rat} (hleft : left.value = some v)
    (hright : right.value = some w) (hv : 0 ≤ v) (hw : 0 ≤ w)
    (h : combine left symbol right = some e) (hx : e.value = some x) : 0 ≤ x := by
  have hresult := value_combine hl hr hleft hright symbol
  rw [h, Option.bind_some, hx] at hresult
  exact result?_nonneg hv hw hresult.symm

/-- No member of the state has a negative value. -/
def State.NonNegative (s : State) : Prop :=
  ∀ e ∈ s.members, ∀ v, e.value = some v → 0 ≤ v

theorem State.nonNegative_ofValues (values : List Nat) :
    (State.ofValues values).NonNegative := by
  intro e he v hv
  obtain ⟨n, -, rfl⟩ := List.mem_map.1 ((members_ofList_perm _).mem_iff.1 he)
  rw [Expr.value_number, Option.some.injEq] at hv
  rw [← hv]
  exact Nat.cast_nonneg n

/-- Combining two members makes nothing negative. -/
theorem State.NonNegative.child {values : List Nat} {s child : State}
    (hs : s.Sound values) (h : s.NonNegative) (hchild : child ∈ s.children) :
    child.NonNegative := by
  obtain ⟨p, hp, symbol, e, hcombine, rfl⟩ := combine_of_mem_children hchild
  have hin : ∀ e' ∈ p.left :: p.right :: p.rest, e' ∈ s.members := fun e' he' =>
    (perm_of_mem_pairs hp).mem_iff.1 he'
  have hleft : p.left ∈ s.members := hin _ (by simp)
  have hright : p.right ∈ s.members := hin _ (by simp)
  obtain ⟨v, hv⟩ := Option.isSome_iff_exists.1 (hs.valued _ hleft)
  obtain ⟨w, hw⟩ := Option.isSome_iff_exists.1 (hs.valued _ hright)
  intro e' he' x hx
  rcases List.mem_cons.1 ((members_replace_perm p e).mem_iff.1 he') with rfl | he'
  · exact nonneg_of_combine (hs.canonical _ hleft) (hs.canonical _ hright) hv hw
      (h _ hleft v hv) (h _ hright w hw) hcombine hx
  · exact h e' (hin e' (by simp [he'])) x hx

theorem nonneg_of_mem_solve {values : List Nat} {target : Int} {e : Expr}
    (h : e ∈ solve values target) : 0 ≤ target := by
  obtain ⟨-, hvalue, s, hs, hmembers⟩ := mem_solve.1 h
  have hstate : s.Sound values ∧ s.NonNegative := by
    refine lastRound_of_step (Q := fun s => s.Sound values ∧ s.NonNegative) ?_ ?_ s hs
    · intro s hs child hchild
      exact ⟨hs.1.child hchild, hs.2.child hs.1 hchild⟩
    · intro s hs
      rw [List.mem_singleton.1 hs]
      exact ⟨State.sound_ofValues values, State.nonNegative_ofValues values⟩
  have hpos := hstate.2 e (by simp [hmembers]) _ hvalue
  exact_mod_cast hpos

/-- The search finds nothing below zero. -/
theorem solve_eq_nil_of_neg {target : Int} (h : target < 0) (values : List Nat) :
    solve values target = [] := by
  refine List.eq_nil_iff_forall_not_mem.2 fun e he => ?_
  have hpos := nonneg_of_mem_solve he
  omega

/-! ## Something is found -/

/-- The search finds something for the absolute value of every tree over the
numbers of the hand. -/
theorem solve_ne_nil_of_tree {values : List Nat} {target : Int} {t : Tree} {v : Rat}
    (hleaves : t.leaves.Perm (values.map fun (v : Nat) => (v : Rat)))
    (heval : t.eval = some v) (htarget : |v| = target) : solve values target ≠ [] := by
  have hpos : ∀ x ∈ t.leaves, 0 ≤ x := by
    intro x hx
    obtain ⟨n, rfl⟩ := natural_of_perm hleaves x hx
    exact Nat.cast_nonneg n
  have hne : values ≠ [] := by
    rintro rfl
    exact t.leaves_ne_nil (List.perm_nil.1 hleaves)
  have hplay := reduces_leaves heval hpos 0
  rw [Multiset.add_zero, Multiset.coe_eq_coe.2 hleaves] at hplay
  obtain ⟨final, hfinal, hvalues⟩ := exists_finished hplay (roundSound_start values)
    (List.mem_singleton_self _) (values_ofValues values)
  rw [State.values, ← Multiset.coe_singleton, Multiset.coe_eq_coe, List.perm_singleton,
    List.map_eq_singleton_iff, htarget] at hvalues
  obtain ⟨e, hmembers, hvalue⟩ := hvalues
  exact List.ne_nil_of_mem (mem_solve.2 ⟨hne, hvalue, final, hfinal, hmembers⟩)

/-! ## Every answer is right -/

theorem nodup_solve (values : List Nat) (target : Int) : (solve values target).Nodup := by
  by_cases h : values = []
  · rw [h]
    exact List.nodup_nil
  · rw [solve_eq_reaching h]
    exact nodup_distinct _

/-- The answers are pairwise different, and each of them has the target as its
value and is made of the numbers of the hand, every one as often as it is there. -/
theorem nodup_solve_and_forall_mem (values : List Nat) (target : Int) :
    (solve values target).Nodup ∧
      ∀ e ∈ solve values target, e.value = some (target : Rat) ∧
        e.usesExactly values = true ∧
        ∀ v : Rat, e.leafValues.count v = (values.map fun (n : Nat) => (n : Rat)).count v := by
  refine ⟨nodup_solve values target, fun e he => ?_⟩
  obtain ⟨-, hvalue, hnumbers⟩ := sound_of_mem_solve he
  refine ⟨hvalue, usesExactly_of_mem_solve he, fun v => ?_⟩
  rw [Expr.leafValues_eq_numbers]
  exact hnumbers.count_eq v

/-- The expression `0 + 3 × 3`, an answer of the hand 3, 0, 3 for 9. -/
def zeroAndThrees : Expr :=
  .compound .additive [⟨false, .number 0⟩,
    ⟨false, .compound .multiplicative [⟨false, .number 3⟩, ⟨false, .number 3⟩]⟩]

theorem nodup_solve_and_forall_mem_three_zero_three :
    (solve [3, 0, 3] 9).Nodup ∧ zeroAndThrees ∈ solve [3, 0, 3] 9 ∧
      zeroAndThrees.value = some 9 ∧ zeroAndThrees.usesExactly [3, 0, 3] = true ∧
      zeroAndThrees.leafValues.count 3 = 2 := by
  have hmem : zeroAndThrees ∈ solve [3, 0, 3] 9 := by
    rw [solve_eq_plainSolve_self (by decide)]
    decide +kernel
  obtain ⟨hnodup, hanswers⟩ := nodup_solve_and_forall_mem [3, 0, 3] 9
  obtain ⟨hvalue, huses, hcount⟩ := hanswers zeroAndThrees hmem
  exact ⟨hnodup, hmem, hvalue, huses, hcount 3⟩

end TwentyFour
