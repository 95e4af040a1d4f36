import TwentyFour.Search.State
import TwentyFour.Text.Integer

/-!
# The search

`solve values target` finds the expressions that use every number once and reach the target.  The
search goes by rounds.  A round replaces every state by its children and drops the states that
were already produced in it; the rounds end when the first state has a single member.

Every round takes one member away from every state, so there are as many rounds as there are
numbers, less one.  What is found is in the order in which it is first produced, and nothing is
found twice.
-/

namespace TwentyFour

/-- The target of the classic game. -/
def defaultTarget : Int := 24

/-! ## Rounds -/

/-- The distinct children of all states, in the order in which they are first produced. -/
def nextRound (states : List State) : List State :=
  distinct (states.flatMap State.children)

/-- The size of the largest state. -/
def largest (states : List State) : Nat :=
  states.foldr (fun s n => max s.size n) 0

theorem size_le_largest {states : List State} {s : State} (h : s ∈ states) :
    s.size ≤ largest states := by
  induction states with
  | nil => simp at h
  | cons first rest ih =>
    rcases List.mem_cons.1 h with rfl | hmem
    · exact Nat.le_max_left _ _
    · exact Nat.le_trans (ih hmem) (Nat.le_max_right _ _)

theorem largest_lt {states : List State} {n : Nat} (hpos : 0 < n)
    (h : ∀ s ∈ states, s.size < n) : largest states < n := by
  induction states with
  | nil => exact hpos
  | cons first rest ih =>
    have hbelow := ih fun s hmem => h s (List.mem_cons_of_mem _ hmem)
    exact Nat.max_lt.2 ⟨h first List.mem_cons_self, hbelow⟩

/-- The states get smaller with every round. -/
theorem largest_nextRound_lt {states : List State} {s : State} (hmem : s ∈ states)
    (hreducible : s.isReducible) : largest (nextRound states) < largest states := by
  have hsize : 1 < s.size := by simpa [State.isReducible] using hreducible
  apply largest_lt (by have := size_le_largest hmem; omega)
  intro child h
  obtain ⟨parent, hparent, hchild⟩ := List.mem_flatMap.1 (mem_of_mem_distinctOn h)
  have := State.size_of_mem_children hchild
  have := size_le_largest hparent
  omega

/-- The states after each round, until the first state cannot be reduced any further. -/
def rounds (states : List State) : List (List State) :=
  match h : states.head? with
  | none => []
  | some s =>
    if hreducible : s.isReducible then
      have _hsmaller := largest_nextRound_lt (List.mem_of_head? h) hreducible
      nextRound states :: rounds (nextRound states)
    else
      []
termination_by largest states

/-! ## What is found -/

/-- What a search leaves behind. -/
structure Findings where
  /-- The number of distinct states after each round. -/
  counts : List Nat
  /-- The expressions that reach the target. -/
  answers : List Expr
deriving Repr

/-- The distinct expressions of finished states that have the value `target`. -/
def reaching (target : Int) (states : List State) : List Expr :=
  distinct ((states.filterMap State.single?).filter fun e => e.value == some (target : Rat))

/-- Searches all ways to combine the numbers.  Without numbers there is nothing to search. -/
def search (values : List Nat) (target : Int) : Findings :=
  if values.isEmpty then
    ⟨[], []⟩
  else
    let start := [State.ofValues values]
    let later := rounds start
    ⟨later.map List.length, reaching target (later.getLastD start)⟩

/-- The expressions that use every number once and reach the target. -/
def solve (values : List Nat) (target : Int) : List Expr :=
  (search values target).answers

/-- What a search reports, one line per event. -/
def Findings.log (values : List Nat) (target : Int) (found : Findings) : List String :=
  if values.isEmpty then
    ["WARN asked to reach " ++ integerText target ++ " without any values"]
  else
    let perRound := found.counts.zipIdx.map fun (count, i) =>
      "DEBUG round " ++ (i + 1).repr ++ ": " ++ count.repr ++ " distinct states"
    perRound ++
      ["DEBUG [" ++ naturalsText ", " values ++ "] -> " ++ integerText target ++ ": " ++
        found.answers.length.repr ++ " solution(s)"]

end TwentyFour
