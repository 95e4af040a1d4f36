import TwentyFour.Proofs.Search

/-!
# Lists with the same first occurrences

The search drops repetitions at three places: among the pairs of a state, among
the states of a round and among the answers.  What makes this harmless is one
relation between lists that everything downstream respects.

* `firstOn_append` says how a scan for first occurrences goes on behind a list,
  and `firstOn_flatMap_firstOn` commutes dropping repetitions with expanding
  every member.
* `SameFirsts xs ys` says that the two lists have the same first occurrences,
  in the same order, whatever has been met before.  Equal lists have them, and
  so do a list and `distinct` of it.
* `sameFirsts_flatMap_distinctOn` drops repetitions before an expansion.
  `SameFirsts.flatMap` and `sameFirsts_flatMap_congr` replace the list and the
  expansion.
* `nodup_distinct` says that nothing is kept twice.
-/

namespace TwentyFour

variable {α β κ : Type}

/-! ## Scanning for first occurrences -/

section Scan

variable [BEq κ]

theorem mem_of_mem_firstOn {key : α → κ} {seen : List κ} {xs : List α} {x : α}
    (hx : x ∈ firstOn key seen xs) : x ∈ xs := by
  induction xs generalizing seen with
  | nil => simp [firstOn] at hx
  | cons y ys ih =>
    rw [firstOn] at hx
    split at hx
    · exact List.mem_cons_of_mem y (ih hx)
    · rcases List.mem_cons.1 hx with rfl | hx
      · exact List.mem_cons_self
      · exact List.mem_cons_of_mem y (ih hx)

variable [LawfulBEq κ]

/-- Only the members of what has been met count. -/
theorem firstOn_congr_seen (key : α → κ) (xs : List α) {seen met : List κ}
    (h : ∀ k, k ∈ seen ↔ k ∈ met) : firstOn key seen xs = firstOn key met xs := by
  induction xs generalizing seen met with
  | nil => rfl
  | cons x xs ih =>
    have hx : seen.contains (key x) = met.contains (key x) := by
      rw [Bool.eq_iff_iff, List.contains_iff_mem, List.contains_iff_mem, h]
    have hcons : ∀ k, k ∈ key x :: seen ↔ k ∈ key x :: met := by
      intro k
      rw [List.mem_cons, List.mem_cons, h k]
    rw [firstOn, firstOn, hx, ih h, ih hcons]

theorem firstOn_append (key : α → κ) (seen : List κ) (xs ys : List α) :
    firstOn key seen (xs ++ ys) =
      firstOn key seen xs ++ firstOn key (xs.map key ++ seen) ys := by
  induction xs generalizing seen with
  | nil => rfl
  | cons x xs ih =>
    rw [List.cons_append, firstOn, firstOn]
    by_cases hx : key x ∈ seen
    · have hmet : ∀ k, k ∈ xs.map key ++ seen ↔ k ∈ (x :: xs).map key ++ seen := by
        intro k
        simp only [List.map_cons, List.cons_append, List.mem_cons, List.mem_append]
        constructor
        · exact Or.inr
        · rintro (rfl | hk)
          · exact Or.inr hx
          · exact hk
      rw [if_pos (List.contains_iff_mem.2 hx), if_pos (List.contains_iff_mem.2 hx), ih,
        firstOn_congr_seen key ys hmet]
    · have hmet : ∀ k, k ∈ xs.map key ++ key x :: seen ↔
          k ∈ (x :: xs).map key ++ seen := by
        intro k
        simp only [List.map_cons, List.cons_append, List.mem_cons, List.mem_append]
        exact or_left_comm
      have hnot : ¬ seen.contains (key x) = true := fun h =>
        hx (List.contains_iff_mem.1 h)
      rw [if_neg hnot, if_neg hnot, ih, firstOn_congr_seen key ys hmet,
        List.cons_append]

theorem firstOn_eq_nil (key : α → κ) {seen : List κ} {xs : List α}
    (h : ∀ x ∈ xs, key x ∈ seen) : firstOn key seen xs = [] := by
  induction xs with
  | nil => rfl
  | cons x xs ih =>
    rw [firstOn, if_pos (List.contains_iff_mem.2 (h x List.mem_cons_self))]
    exact ih fun y hy => h y (List.mem_cons_of_mem x hy)

/-- What has been met is not met again. -/
theorem key_not_mem_of_mem_firstOn {key : α → κ} {seen : List κ} {xs : List α} {x : α}
    (hx : x ∈ firstOn key seen xs) : key x ∉ seen := by
  induction xs generalizing seen with
  | nil => simp [firstOn] at hx
  | cons y ys ih =>
    rw [firstOn] at hx
    split at hx
    · exact ih hx
    next hy =>
      rcases List.mem_cons.1 hx with rfl | hx
      · exact fun hmem => hy (List.contains_iff_mem.2 hmem)
      · exact fun hmem => ih hx (List.mem_cons_of_mem _ hmem)

theorem nodup_firstOn (seen : List κ) (xs : List κ) : (firstOn id seen xs).Nodup := by
  induction xs generalizing seen with
  | nil => exact List.nodup_nil
  | cons x xs ih =>
    rw [firstOn]
    split
    · exact ih seen
    · refine List.nodup_cons.2 ⟨fun hmem => ?_, ih _⟩
      exact key_not_mem_of_mem_firstOn hmem List.mem_cons_self

/-- Dropping repetitions first and expanding then loses nothing that expanding
everything would meet for the first time, if repeated members expand alike. -/
theorem firstOn_flatMap_firstOn [BEq β] [LawfulBEq β] {key : α → κ} {f : α → List β}
    {xs : List α} (hf : ∀ x ∈ xs, ∀ y ∈ xs, key x = key y → f x = f y) {met : List κ}
    {seen : List β} (hseen : ∀ x ∈ xs, key x ∈ met → ∀ b ∈ f x, b ∈ seen) :
    firstOn id seen ((firstOn key met xs).flatMap f) =
      firstOn id seen (xs.flatMap f) := by
  -- `seen` has met whatever the members with a key in `met` expand to
  induction xs generalizing met seen with
  | nil => rfl
  | cons x xs ih =>
    have hf' : ∀ y ∈ xs, ∀ z ∈ xs, key y = key z → f y = f z := fun y hy z hz =>
      hf y (List.mem_cons_of_mem x hy) z (List.mem_cons_of_mem x hz)
    rw [List.flatMap_cons, firstOn]
    by_cases hx : key x ∈ met
    · have hskip : ∀ b ∈ f x, b ∈ seen := hseen x List.mem_cons_self hx
      have hsame : ∀ b, b ∈ (f x).map id ++ seen ↔ b ∈ seen := by
        intro b
        rw [List.map_id, List.mem_append]
        exact ⟨fun hb => hb.elim (hskip b) id, Or.inr⟩
      rw [if_pos (List.contains_iff_mem.2 hx), firstOn_append, firstOn_eq_nil id hskip,
        List.nil_append, firstOn_congr_seen id _ hsame]
      exact ih hf' fun y hy => hseen y (List.mem_cons_of_mem x hy)
    · have hnot : ¬ met.contains (key x) = true := fun h =>
        hx (List.contains_iff_mem.1 h)
      rw [if_neg hnot, List.flatMap_cons, firstOn_append, firstOn_append]
      congr 1
      refine ih hf' fun y hy hkey b hb => ?_
      have hy' : y ∈ x :: xs := List.mem_cons_of_mem x hy
      rw [List.map_id, List.mem_append]
      rcases List.mem_cons.1 hkey with heq | hkey
      · rw [hf y hy' x List.mem_cons_self heq] at hb
        exact Or.inl hb
      · exact Or.inr (hseen y hy' hkey b hb)

end Scan

/-! ## Lists that a scan cannot tell apart -/

section Same

variable [BEq β]

/-- The two lists have the same first occurrences in the same order, whatever has
been met before. -/
def SameFirsts (xs ys : List β) : Prop :=
  ∀ seen, firstOn id seen xs = firstOn id seen ys

namespace SameFirsts

theorem refl (xs : List β) : SameFirsts xs xs := fun _ => rfl

theorem symm {xs ys : List β} (h : SameFirsts xs ys) : SameFirsts ys xs := fun seen =>
  (h seen).symm

theorem trans {xs ys zs : List β} (h : SameFirsts xs ys) (h' : SameFirsts ys zs) :
    SameFirsts xs zs := fun seen => (h seen).trans (h' seen)

variable [LawfulBEq β]

theorem subset {xs ys : List β} (h : SameFirsts xs ys) : xs ⊆ ys := by
  intro x hx
  rcases exists_mem_firstOn id hx [] with hseen | ⟨y, hy, heq⟩
  · simp at hseen
  · rw [h []] at hy
    rw [← show y = x from heq]
    exact mem_of_mem_firstOn hy

theorem append {xs xs' ys ys' : List β} (hx : SameFirsts xs xs')
    (hy : SameFirsts ys ys') : SameFirsts (xs ++ ys) (xs' ++ ys') := by
  intro seen
  have hmet : ∀ x, x ∈ xs.map id ++ seen ↔ x ∈ xs'.map id ++ seen := by
    intro x
    rw [List.map_id, List.map_id, List.mem_append, List.mem_append]
    exact or_congr_left ⟨fun h => hx.subset h, fun h => hx.symm.subset h⟩
  rw [firstOn_append, firstOn_append, hx seen, hy, firstOn_congr_seen id ys' hmet]

end SameFirsts

variable [LawfulBEq β]

theorem sameFirsts_flatMap_congr {f g : α → List β} {xs : List α}
    (h : ∀ x ∈ xs, SameFirsts (f x) (g x)) :
    SameFirsts (xs.flatMap f) (xs.flatMap g) := by
  induction xs with
  | nil => exact .refl _
  | cons x xs ih =>
    rw [List.flatMap_cons, List.flatMap_cons]
    exact (h x List.mem_cons_self).append
      (ih fun y hy => h y (List.mem_cons_of_mem x hy))

variable [BEq κ] [LawfulBEq κ] [Hashable κ]

/-- Members with a key that has occurred need not be expanded, if members with
one key expand alike. -/
theorem sameFirsts_flatMap_distinctOn {key : α → κ} {f : α → List β} {xs : List α}
    (hf : ∀ x ∈ xs, ∀ y ∈ xs, key x = key y → f x = f y) :
    SameFirsts ((distinctOn key xs).flatMap f) (xs.flatMap f) := by
  intro seen
  rw [distinctOn_eq_firstOn]
  exact firstOn_flatMap_firstOn hf fun x _ hx => by simp at hx

theorem sameFirsts_flatMap_distinct (f : κ → List β) (xs : List κ) :
    SameFirsts ((distinct xs).flatMap f) (xs.flatMap f) :=
  sameFirsts_flatMap_distinctOn fun _ _ _ _ heq => congrArg f heq

theorem sameFirsts_distinct (xs : List κ) : SameFirsts (distinct xs) xs := by
  have h := sameFirsts_flatMap_distinct (fun x => [x]) xs
  rwa [List.flatMap_singleton', List.flatMap_singleton'] at h

theorem distinct_eq_firstOn (xs : List κ) : distinct xs = firstOn id [] xs :=
  distinctOn_eq_firstOn id xs

theorem SameFirsts.distinct_eq {xs ys : List κ} (h : SameFirsts xs ys) :
    distinct xs = distinct ys := by
  rw [distinct_eq_firstOn, distinct_eq_firstOn, h []]

/-- Nothing is kept twice. -/
theorem nodup_distinct (xs : List κ) : (distinct xs).Nodup := by
  rw [distinct_eq_firstOn]
  exact nodup_firstOn [] xs

/-- Lists with the same first occurrences expand to such lists. -/
theorem SameFirsts.flatMap {xs ys : List κ} (h : SameFirsts xs ys) (f : κ → List β) :
    SameFirsts (xs.flatMap f) (ys.flatMap f) := by
  have hx := sameFirsts_flatMap_distinct f xs
  rw [h.distinct_eq] at hx
  exact hx.symm.trans (sameFirsts_flatMap_distinct f ys)

theorem SameFirsts.filterMap {xs ys : List κ} (h : SameFirsts xs ys) (f : κ → Option β) :
    SameFirsts (xs.filterMap f) (ys.filterMap f) := by
  have hflat := h.flatMap fun x => (f x).toList
  rwa [← List.filterMap_eq_flatMap_toList, ← List.filterMap_eq_flatMap_toList] at hflat

theorem SameFirsts.filter {xs ys : List κ} (h : SameFirsts xs ys) (p : κ → Bool) :
    SameFirsts (xs.filter p) (ys.filter p) := by
  have hguard := h.filterMap (Option.guard p)
  rwa [List.filterMap_eq_filter] at hguard

end Same

end TwentyFour
