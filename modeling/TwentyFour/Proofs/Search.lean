import Mathlib.Data.List.Perm.Basic
import TwentyFour.Proofs.Values
import TwentyFour.Search.Solve

/-!
# What the search keeps

The search replaces every state by its children, round by round.  This module
says what one step does and carries it through a whole run.

* First occurrences lose no key (`exists_mem_distinctOn`, `mem_distinct`), and
  every two members of a list are one of its pairs (`exists_mem_pairs`).
* `State.combine_of_mem_children` inverts a step: a child replaces two members
  by what a symbol makes of them.  `State.exists_child` is the converse: the
  prunings keep a child with the value asked for.
* `lastRound` is the end of a run.  `lastRound_of_step` carries a property
  through all rounds, and `mem_solve` says what the answers are.
  `forall_mem_solve_of_combine` is the induction on how an answer comes about.
* `State.Sound` is the invariant of a search state: its members are canonical,
  have values, and are made of exactly the numbers of the hand.
-/

namespace TwentyFour

/-! ## First occurrences -/

section Distinct

variable {α κ : Type} [BEq κ]

theorem exists_mem_firstOn [LawfulBEq κ] (key : α → κ) {xs : List α} {x : α}
    (hx : x ∈ xs) (seen : List κ) :
    key x ∈ seen ∨ ∃ y ∈ firstOn key seen xs, key y = key x := by
  induction xs generalizing seen with
  | nil => simp at hx
  | cons z zs ih =>
    unfold firstOn
    split
    next hseen =>
      rcases List.mem_cons.1 hx with rfl | hx
      · exact Or.inl (List.contains_iff_mem.1 hseen)
      · exact ih hx seen
    next =>
      rcases List.mem_cons.1 hx with rfl | hx
      · exact Or.inr ⟨x, List.mem_cons_self, rfl⟩
      · rcases ih hx (key z :: seen) with hseen | ⟨y, hy, heq⟩
        · rcases List.mem_cons.1 hseen with heq | hseen
          · exact Or.inr ⟨z, List.mem_cons_self, heq.symm⟩
          · exact Or.inl hseen
        · exact Or.inr ⟨y, List.mem_cons_of_mem z hy, heq⟩

variable [Hashable κ]

/-- Every key of the list is the key of a first occurrence. -/
theorem exists_mem_distinctOn [LawfulBEq κ] (key : α → κ) {xs : List α} {x : α}
    (hx : x ∈ xs) : ∃ y ∈ distinctOn key xs, key y = key x := by
  rw [distinctOn_eq_firstOn]
  rcases exists_mem_firstOn key hx [] with hseen | h
  · simp at hseen
  · exact h

theorem mem_distinct [LawfulBEq κ] {xs : List κ} {x : κ} :
    x ∈ distinct xs ↔ x ∈ xs := by
  constructor
  · exact mem_of_mem_distinctOn
  · intro hx
    obtain ⟨y, hy, heq⟩ := exists_mem_distinctOn id hx
    rw [← show y = x from heq]
    exact hy

end Distinct

/-! ## Pairs -/

section Pairs

variable {α : Type}

theorem exists_mem_selections {xs rest : List α} {y : α} (h : xs.Perm (y :: rest)) :
    ∃ others, (y, others) ∈ selections xs ∧ others.Perm rest := by
  have hy : y ∈ xs := h.mem_iff.2 List.mem_cons_self
  have hex : ∃ others, (y, others) ∈ selections xs := by
    clear h
    induction xs with
    | nil => simp at hy
    | cons x xs ih =>
      rcases List.mem_cons.1 hy with rfl | hy
      · exact ⟨xs, List.mem_cons_self⟩
      · obtain ⟨others, hmem⟩ := ih hy
        refine ⟨x :: others, List.mem_cons_of_mem _ ?_⟩
        exact List.mem_map.2 ⟨(y, others), hmem, rfl⟩
  obtain ⟨others, hmem⟩ := hex
  exact ⟨others, hmem, ((perm_of_mem_selections hmem).trans h).cons_inv⟩

/-- Two members of a list are one of its pairs, in one order or the other. -/
theorem exists_mem_pairs {xs rest : List α} {x y : α}
    (h : xs.Perm (x :: y :: rest)) :
    ∃ p ∈ pairs xs, (p.left = x ∧ p.right = y ∨ p.left = y ∧ p.right = x) ∧
      p.rest.Perm rest := by
  induction xs generalizing rest with
  | nil => exact absurd h.length_eq (by simp)
  | cons z zs ih =>
    have hfirst : ∀ {v w : α}, zs.Perm (w :: rest) →
        z = v → ∃ p ∈ pairs (z :: zs), (p.left = v ∧ p.right = w) ∧ p.rest.Perm rest := by
      intro v w hzs hz
      obtain ⟨others, hmem, hperm⟩ := exists_mem_selections hzs
      refine ⟨⟨z, w, others⟩, List.mem_append_left _ ?_, ⟨hz, rfl⟩, hperm⟩
      exact List.mem_map.2 ⟨(w, others), hmem, rfl⟩
    have hz : z ∈ x :: y :: rest := h.mem_iff.1 List.mem_cons_self
    rcases List.mem_cons.1 hz with rfl | hz
    · obtain ⟨p, hp, hsides, hrest⟩ := hfirst h.cons_inv rfl
      exact ⟨p, hp, Or.inl hsides, hrest⟩
    · rcases List.mem_cons.1 hz with rfl | hz
      · have hzs : zs.Perm (x :: rest) := (h.trans (.swap z x rest)).cons_inv
        obtain ⟨p, hp, hsides, hrest⟩ := hfirst hzs rfl
        exact ⟨p, hp, Or.inr hsides, hrest⟩
      · obtain ⟨front, back, rfl⟩ := List.append_of_mem hz
        have hmiddle : (front ++ z :: back).Perm (z :: (front ++ back)) :=
          List.perm_middle
        have hfront : (x :: y :: (front ++ z :: back)).Perm
            (z :: x :: y :: (front ++ back)) :=
          ((hmiddle.cons y).cons x).trans
            (((List.Perm.swap z y _).cons x).trans (.swap z x _))
        obtain ⟨p, hp, hsides, hrest⟩ := ih (h.trans hfront).cons_inv
        refine ⟨⟨p.left, p.right, z :: p.rest⟩, List.mem_append_right _ ?_, hsides, ?_⟩
        · exact List.mem_map.2 ⟨p, hp, rfl⟩
        · exact (hrest.cons z).trans hmiddle.symm

/-- Pairs of the same two members leave the same others. -/
theorem rest_perm_of_mem_pairs {xs : List α} {p q : Pair α} (hp : p ∈ pairs xs)
    (hq : q ∈ pairs xs) (hleft : p.left = q.left) (hright : p.right = q.right) :
    p.rest.Perm q.rest := by
  have hpq := (perm_of_mem_pairs hp).trans (perm_of_mem_pairs hq).symm
  rw [hleft, hright] at hpq
  exact hpq.cons_inv.cons_inv

end Pairs

/-! ## One step -/

namespace State

theorem members_ofList_perm (es : List Expr) : (ofList es).members.Perm es :=
  sortBy_perm _ _

theorem members_replace_perm (p : Pair Expr) (e : Expr) :
    (replace p e).members.Perm (e :: p.rest) :=
  (members_ofList_perm _).trans List.perm_append_comm

/-- A child replaces two members by what a symbol makes of them. -/
theorem combine_of_mem_children {s child : State} (h : child ∈ s.children) :
    ∃ p ∈ pairs s.members, ∃ symbol e,
      combine p.left symbol p.right = some e ∧ child = replace p e := by
  simp only [children, distinctPairs, List.mem_flatMap, List.mem_map] at h
  obtain ⟨p, hp, e, he, rfl⟩ := h
  obtain ⟨symbol, -, hcombine⟩ := List.mem_filterMap.1 (mem_of_mem_distinctOn he)
  exact ⟨p, mem_of_mem_distinctOn hp, symbol, e, hcombine, rfl⟩

/-- Whatever a symbol makes of two members, there is a child that replaces the
two by an expression of the same value. -/
theorem exists_child {s : State} {p : Pair Expr} (hp : p ∈ pairs s.members)
    {symbol : Symbol} {e : Expr} (h : combine p.left symbol p.right = some e) :
    ∃ child ∈ s.children, ∃ e', e'.value = e.value ∧
      child.members.Perm (e' :: p.rest) := by
  obtain ⟨q, hq, hsides⟩ := exists_mem_distinctOn (fun p => (p.left, p.right)) hp
  have hleft : q.left = p.left := congrArg Prod.fst hsides
  have hright : q.right = p.right := congrArg Prod.snd hsides
  have hrest : q.rest.Perm p.rest :=
    rest_perm_of_mem_pairs (mem_of_mem_distinctOn hq) hp hleft hright
  have hmem : e ∈ Symbol.all.filterMap fun symbol => combine p.left symbol p.right :=
    List.mem_filterMap.2 ⟨symbol, symbol.mem_all, h⟩
  obtain ⟨e', he', hvalue⟩ := exists_mem_distinctOn Expr.value hmem
  refine ⟨replace q e', ?_, e', hvalue, (members_replace_perm q e').trans (hrest.cons e')⟩
  refine List.mem_flatMap.2 ⟨q, hq, List.mem_map.2 ⟨e', ?_, rfl⟩⟩
  rw [hleft, hright]
  exact he'

end State

theorem mem_nextRound {states : List State} {child : State} :
    child ∈ nextRound states ↔ ∃ s ∈ states, child ∈ s.children := by
  rw [nextRound, mem_distinct, List.mem_flatMap]

/-! ## A whole run -/

/-- The states at the end of a run. -/
def lastRound (states : List State) : List State :=
  (rounds states).getLastD states

theorem rounds_of_not_reducible {states : List State}
    (h : ∀ s, states.head? = some s → s.isReducible = false) : rounds states = [] := by
  unfold rounds
  split
  · rfl
  next s hs =>
    rw [dif_neg]
    rw [h s hs]
    exact Bool.false_ne_true

theorem rounds_of_reducible {states : List State} {s : State}
    (hs : states.head? = some s) (h : s.isReducible = true) :
    rounds states = nextRound states :: rounds (nextRound states) := by
  rw [rounds]
  split
  next hnone => simp [hs] at hnone
  next s' hs' =>
    have hsame : s' = s := Option.some.inj (hs'.symm.trans hs)
    rw [dif_pos (by rw [hsame, h])]

theorem lastRound_of_not_reducible {states : List State}
    (h : ∀ s, states.head? = some s → s.isReducible = false) :
    lastRound states = states := by
  rw [lastRound, rounds_of_not_reducible h, List.getLastD_nil]

theorem lastRound_of_reducible {states : List State} {s : State}
    (hs : states.head? = some s) (h : s.isReducible = true) :
    lastRound states = lastRound (nextRound states) := by
  rw [lastRound, lastRound, rounds_of_reducible hs h, List.getLastD_cons]

/-- What every round keeps holds at the end of the run. -/
theorem lastRound_induct {motive : List State → Prop}
    (hstep : ∀ states, motive states → motive (nextRound states))
    {states : List State} (h : motive states) : motive (lastRound states) := by
  induction states using rounds.induct with
  | case1 states hnone =>
    rw [lastRound_of_not_reducible]
    · exact h
    · intro s hs
      simp [hnone] at hs
  | case2 states s hs hreducible hsmaller ih =>
    rw [lastRound_of_reducible hs hreducible]
    exact ih (hstep states h)
  | case3 states s hs hreducible =>
    rw [lastRound_of_not_reducible]
    · exact h
    · intro s' hs'
      rw [← Option.some.inj (hs.symm.trans hs')]
      simpa using hreducible

/-- What every child keeps holds of every state at the end of the run. -/
theorem lastRound_of_step {Q : State → Prop}
    (hstep : ∀ s, Q s → ∀ child ∈ s.children, Q child)
    {states : List State} (h : ∀ s ∈ states, Q s) :
    ∀ s ∈ lastRound states, Q s := by
  refine lastRound_induct (motive := fun states => ∀ s ∈ states, Q s) ?_ h
  intro states hstates child hchild
  obtain ⟨s, hs, hmem⟩ := mem_nextRound.1 hchild
  exact hstep s (hstates s hs) child hmem

theorem single?_eq_some {s : State} {e : Expr} :
    s.single? = some e ↔ s.members = [e] := by
  unfold State.single?
  split
  next e' heq => simp [heq]
  next hne =>
    constructor
    · intro h
      simp at h
    · intro h
      exact absurd h (hne e)

/-- The answers are the expressions of finished states with the target as their
value. -/
theorem mem_solve {values : List Nat} {target : Int} {e : Expr} :
    e ∈ solve values target ↔ values ≠ [] ∧ e.value = some (target : Rat) ∧
      ∃ s ∈ lastRound [State.ofValues values], s.members = [e] := by
  unfold solve search
  by_cases hempty : values = []
  · simp [hempty]
  · rw [if_neg (by simpa using hempty)]
    simp only [reaching, mem_distinct, List.mem_filter, List.mem_filterMap,
      single?_eq_some, beq_iff_eq, lastRound]
    constructor
    · intro h
      exact ⟨hempty, h.2, h.1⟩
    · intro h
      exact ⟨h.2.2, h.2.1⟩

/-- What holds of numbers and is kept by every symbol holds of the answers. -/
theorem forall_mem_solve_of_combine {P : Expr → Prop}
    (hnumber : ∀ n : Nat, P (.number (n : Rat)))
    (hcombine : ∀ left right symbol e, P left → P right →
      combine left symbol right = some e → P e)
    {values : List Nat} {target : Int} {e : Expr} (h : e ∈ solve values target) : P e := by
  obtain ⟨-, -, s, hs, hmembers⟩ := mem_solve.1 h
  have hstep : ∀ s : State, (∀ e ∈ s.members, P e) →
      ∀ child ∈ s.children, ∀ e ∈ child.members, P e := by
    intro s hmember child hchild e he
    obtain ⟨p, hp, symbol, e', he', rfl⟩ := State.combine_of_mem_children hchild
    have hin : ∀ m ∈ p.left :: p.right :: p.rest, P m := fun m hm =>
      hmember m ((perm_of_mem_pairs hp).mem_iff.1 hm)
    rcases List.mem_cons.1 ((State.members_replace_perm p e').mem_iff.1 he) with rfl | he
    · exact hcombine _ _ symbol e (hin _ (by simp)) (hin _ (by simp)) he'
    · exact hin e (by simp [he])
  have hstart : ∀ s ∈ [State.ofValues values], ∀ e ∈ s.members, P e := by
    intro s hs e he
    rw [List.mem_singleton.1 hs] at he
    obtain ⟨v, -, rfl⟩ := List.mem_map.1 ((State.members_ofList_perm _).mem_iff.1 he)
    exact hnumber v
  exact lastRound_of_step hstep hstart s hs e (by simp [hmembers])

/-! ## The invariant of a state -/

/-- What holds of every state that a search of `values` reaches. -/
structure State.Sound (values : List Nat) (s : State) : Prop where
  canonical : ∀ e ∈ s.members, e.Canonical
  valued : ∀ e ∈ s.members, e.value.isSome
  numbers : (s.members.flatMap Expr.numbers).Perm (values.map fun (v : Nat) => (v : Rat))

theorem State.sound_ofValues (values : List Nat) :
    (State.ofValues values).Sound values := by
  have hperm : (State.ofValues values).members.Perm
      (values.map fun (v : Nat) => Expr.number (v : Rat)) := State.members_ofList_perm _
  refine ⟨?_, ?_, ?_⟩
  · intro e he
    obtain ⟨v, -, rfl⟩ := List.mem_map.1 (hperm.mem_iff.1 he)
    exact .number _
  · intro e he
    obtain ⟨v, -, rfl⟩ := List.mem_map.1 (hperm.mem_iff.1 he)
    rw [Expr.value_number]
    rfl
  · refine (hperm.flatMap_right _).trans ?_
    rw [List.flatMap_map]
    clear hperm
    induction values with
    | nil => exact .refl _
    | cons v values ih => simpa [Expr.numbers] using ih

/-- Combining two members keeps the invariant. -/
theorem State.Sound.child {values : List Nat} {s child : State} (h : s.Sound values)
    (hchild : child ∈ s.children) : child.Sound values := by
  obtain ⟨p, hp, symbol, e, hcombine, rfl⟩ := combine_of_mem_children hchild
  have hmembers := perm_of_mem_pairs hp
  have hin : ∀ e' ∈ p.left :: p.right :: p.rest, e' ∈ s.members := by
    intro e' he'
    exact hmembers.mem_iff.1 he'
  have hl := h.canonical p.left (hin _ (by simp))
  have hr := h.canonical p.right (hin _ (by simp))
  have hperm := members_replace_perm p e
  refine ⟨?_, ?_, ?_⟩
  · intro e' he'
    rcases List.mem_cons.1 (hperm.mem_iff.1 he') with rfl | he'
    · exact hl.of_combine hr hcombine
    · exact h.canonical e' (hin _ (by simp [he']))
  · intro e' he'
    rcases List.mem_cons.1 (hperm.mem_iff.1 he') with rfl | he'
    · exact isSome_value_of_combine hcombine
    · exact h.valued e' (hin _ (by simp [he']))
  · have hnew := (Expr.numbers_combine_perm hl hr hcombine).append_right
      (p.rest.flatMap Expr.numbers)
    have hold := (hmembers.flatMap_right Expr.numbers).trans h.numbers
    refine (hperm.flatMap_right _).trans (hnew.trans ?_)
    simpa using hold

/-- The invariant of an answer: a canonical expression of the right value that is
made of the numbers of the hand. -/
theorem sound_of_mem_solve {values : List Nat} {target : Int} {e : Expr}
    (h : e ∈ solve values target) :
    e.Canonical ∧ e.value = some (target : Rat) ∧
      e.numbers.Perm (values.map fun (v : Nat) => (v : Rat)) := by
  obtain ⟨-, hvalue, s, hs, hmembers⟩ := mem_solve.1 h
  have hsound : s.Sound values := by
    refine lastRound_of_step (fun s hs child => hs.child) ?_ s hs
    intro s hs
    rw [List.mem_singleton.1 hs]
    exact State.sound_ofValues values
  have hnumbers := hsound.numbers
  rw [hmembers, List.flatMap_singleton] at hnumbers
  exact ⟨hsound.canonical e (by simp [hmembers]), hvalue, hnumbers⟩

end TwentyFour
