import Std.Data.HashSet

/-!
# First occurrences

`distinctOn key xs` keeps the members of `xs` whose key has not occurred before, in the order of
`xs`.  The keys met so far are remembered in a hash set, so that long lists stay cheap.
`firstOn` says the same by recursion on the list alone, without the set.
-/

namespace TwentyFour

variable {α κ : Type} [BEq κ] [Hashable κ]

/-- Adds to `kept`, latest first, the members of a list whose key is new; `seen` holds the keys
met so far. -/
def distinctOnInto (key : α → κ) (seen : Std.HashSet κ) (kept : List α) : List α → List α
  | [] => kept.reverse
  | x :: xs =>
    if seen.contains (key x) then
      distinctOnInto key seen kept xs
    else
      distinctOnInto key (seen.insert (key x)) (x :: kept) xs

/-- The members of `xs` whose key has not occurred before, in order. -/
def distinctOn (key : α → κ) (xs : List α) : List α :=
  distinctOnInto key ∅ [] xs

/-- The members of a list in order, without repetition. -/
def distinct (xs : List κ) : List κ :=
  distinctOn id xs

theorem mem_of_mem_distinctOnInto {key : α → κ} {xs : List α} {x : α} :
    ∀ {seen : Std.HashSet κ} {kept : List α},
      x ∈ distinctOnInto key seen kept xs → x ∈ kept ∨ x ∈ xs := by
  induction xs with
  | nil => simp [distinctOnInto]
  | cons y ys ih =>
    intro seen kept h
    unfold distinctOnInto at h
    split at h
    · exact (ih h).imp_right (List.mem_cons_of_mem y)
    · rcases ih h with h | h
      · rcases List.mem_cons.1 h with rfl | h
        · exact .inr List.mem_cons_self
        · exact .inl h
      · exact .inr (List.mem_cons_of_mem y h)

/-- Only members of the list are kept. -/
theorem mem_of_mem_distinctOn {key : α → κ} {xs : List α} {x : α} (h : x ∈ distinctOn key xs) :
    x ∈ xs := by
  simpa using mem_of_mem_distinctOnInto h

/-- The members of a list whose key is not among `seen` and has not occurred before. -/
def firstOn (key : α → κ) (seen : List κ) : List α → List α
  | [] => []
  | x :: xs =>
    if seen.contains (key x) then
      firstOn key seen xs
    else
      x :: firstOn key (key x :: seen) xs

theorem distinctOnInto_eq [EquivBEq κ] [LawfulHashable κ] (key : α → κ) (xs : List α) :
    ∀ (seen : Std.HashSet κ) (met : List κ) (kept : List α),
      (∀ k, seen.contains k = met.contains k) →
      distinctOnInto key seen kept xs = kept.reverse ++ firstOn key met xs := by
  induction xs with
  | nil => intro seen met kept _; simp [distinctOnInto, firstOn]
  | cons x xs ih =>
    intro seen met kept hsame
    unfold distinctOnInto firstOn
    rw [hsame (key x)]
    split
    · exact ih seen met kept hsame
    · rw [ih (seen.insert (key x)) (key x :: met) (x :: kept)]
      · simp
      · intro k
        rw [Std.HashSet.contains_insert, List.contains_cons, hsame k, BEq.comm]

/-- The hash set only saves time. -/
theorem distinctOn_eq_firstOn [EquivBEq κ] [LawfulHashable κ] (key : α → κ) (xs : List α) :
    distinctOn key xs = firstOn key [] xs := by
  simpa [distinctOn] using distinctOnInto_eq key xs ∅ [] [] (by simp)

end TwentyFour
