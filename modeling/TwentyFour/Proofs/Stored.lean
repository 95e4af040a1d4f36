import TwentyFour.Expr.Stored
import TwentyFour.Proofs.Reading
import TwentyFour.Proofs.Search

/-!
# Stored values are exact

Whatever is built of expressions that store their values, every compound in it
stores the value of its operands.

* `Expr.store` gives an expression the values that it should store.  On such
  expressions the operations never refuse to evaluate, and they do what they do
  without stored values: `push_store`, `pair_store`, `join_store` and
  `combine_store`.
* `Stored.Built` lists the ways to build an expression.  `Stored.built_iff` says
  that what can be built is what `Expr.store` gives.
* `Stored.Sound` is the invariant of every compound.  `sound_of_built` is the
  result about everything that can be built, read or found.
-/

namespace TwentyFour

/-! ## Storing values -/

namespace Expr

mutual

/-- The expression with the value of every compound stored. -/
def store : Expr → Stored
  | .number v => .number v
  | .compound cls ops => .compound cls (storeOperands ops) (compound cls ops).value

/-- Operands with all values stored. -/
def storeOperands : List (Operand Expr) → List (Operand Stored)
  | [] => []
  | ⟨reverse, e⟩ :: rest => ⟨reverse, e.store⟩ :: storeOperands rest

end

end Expr

/-- The operand with all values stored. -/
def Operand.store (o : Operand Expr) : Operand Stored :=
  ⟨o.reverse, o.expr.store⟩

namespace Expr

theorem storeOperands_eq_map (ops : List (Operand Expr)) :
    storeOperands ops = ops.map Operand.store := by
  induction ops with
  | nil => rfl
  | cons o rest ih => rw [storeOperands, ih, List.map_cons, Operand.store]

theorem store_compound (cls : OpClass) (ops : List (Operand Expr)) :
    (compound cls ops).store =
      .compound cls (ops.map Operand.store) (compound cls ops).value := by
  rw [store, storeOperands_eq_map]

@[simp] theorem value_store (e : Expr) : e.store.value = e.value := by
  cases e with
  | number v => rw [store, Stored.value, value_number]
  | compound cls ops => rw [store, Stored.value]

@[simp] theorem cls?_store (e : Expr) : e.store.cls? = e.cls? := by
  cases e <;> simp [store, Stored.cls?, cls?]

theorem operands_store (e : Expr) : e.store.operands = e.operands.map Operand.store := by
  cases e with
  | number v => simp [store, Stored.operands, operands]
  | compound cls ops => rw [store_compound, Stored.operands, operands]

/-- Storing values and forgetting them changes nothing. -/
@[simp] theorem erase_store (e : Expr) : e.store.erase = e := by
  induction e using Expr.induct with
  | number v => rw [store, Stored.erase]
  | compound cls ops ih =>
    rw [store_compound, Stored.erase, Stored.eraseOperands_eq_map, List.map_map]
    congr 1
    refine (List.map_congr_left fun o ho => ?_).trans (List.map_id ops)
    exact congrArg (Operand.mk o.reverse) (ih o ho)

end Expr

/-! ## Operations on exact values -/

namespace Stored

theorem compareOperand_store (a b : Operand Expr) :
    compareOperand a.store b.store = Operand.compare a b := by
  simp [compareOperand, Operand.store]

theorem sort_store (ops : List (Operand Expr)) :
    sort (ops.map Operand.store) = (Operand.sort ops).map Operand.store :=
  sortBy_map compareOperand_store ops

theorem term_store (cls : OpClass) (e : Expr) (reverse : Bool) :
    term cls e.store reverse = (Expr.term cls e reverse).store := by
  rw [term, Expr.value_store]
  rfl

theorem terms_store (cls : OpClass) (e : Expr) (reverse : Bool) :
    terms cls e.store reverse = (e.terms cls reverse).map Operand.store := by
  cases e with
  | number v =>
    have hterm := term_store cls (.number v) reverse
    rw [Expr.store] at hterm
    rw [Expr.store, terms, Expr.terms_number, hterm, List.map_singleton]
  | compound c ops =>
    have hterm := term_store cls (.compound c ops) reverse
    rw [Expr.store_compound] at hterm
    rw [Expr.store_compound, terms, Expr.terms, hterm]
    split
    · rw [List.map_map, List.map_map]
      exact List.map_congr_left fun o _ => term_store cls o.expr _
    · rfl

/-- Sorted operands of which one is not reversed are evaluated, to the value of
their compound. -/
theorem evaluate_store (cls : OpClass) {ops : List (Operand Expr)}
    (hforward : ∃ o ∈ ops, o.reverse = false) :
    evaluate cls ((Operand.sort ops).map Operand.store) =
      .ok (Expr.compound cls (Operand.sort ops)).value := by
  have hsorted : SortedBy Operand.compare (Operand.sort ops) := sortedBy_sortBy ops
  have hforward' : ∃ o ∈ Operand.sort ops, o.reverse = false := by
    simpa [Operand.sort] using hforward
  cases hops : Operand.sort ops with
  | nil => simp [hops] at hforward'
  | cons o rest =>
    rw [hops] at hsorted hforward'
    have hhead := head_forward_of_sorted hsorted hforward'
    have hvalue : (Expr.compound cls (o :: rest)).value = o.expr.value.bind fun v =>
        rest.foldlM (fun acc p => p.expr.value.bind (cls.apply p.reverse acc)) v := by
      rw [Expr.value_compound, Expr.foldValue_cons, hhead]
      simp [OpClass.apply_eq_map, Expr.foldValue_eq_foldlM]
    rw [List.map_cons, evaluate, hvalue]
    simp [Operand.store, hhead, List.foldlM_map]

theorem push_store {cls : OpClass} {ops : List (Operand Expr)} {e : Expr} {reverse : Bool}
    (hforward : ∃ o ∈ ops ++ e.terms cls reverse, o.reverse = false) :
    push cls (ops.map Operand.store) e.store reverse =
      .ok (Expr.compound cls (Expr.insertTerms cls ops e reverse)).store := by
  have hsorted : sort (ops.map Operand.store ++ terms cls e.store reverse) =
      (Operand.sort (ops ++ e.terms cls reverse)).map Operand.store := by
    rw [terms_store, ← List.map_append, sort_store]
  simp only [push, hsorted, evaluate_store cls hforward, Expr.store_compound]
  rfl

/-- A compound takes further operands. -/
theorem push_operands_store {cls : OpClass} {ops : List (Operand Expr)}
    (hops : CanonicalOperands cls ops) (e : Expr) (reverse : Bool) :
    push cls (ops.map Operand.store) e.store reverse =
      .ok (Expr.compound cls (Expr.insertTerms cls ops e reverse)).store := by
  obtain ⟨o, ho, hforward⟩ := hops.forward
  exact push_store ⟨o, List.mem_append_left _ ho, hforward⟩

section Operations

variable {lhs rhs : Expr}

theorem pair_store (hl : lhs.Canonical) (cls : OpClass) (rhs : Expr) (reverse : Bool) :
    pair cls lhs.store rhs.store reverse = .ok (Expr.pair cls lhs rhs reverse).store := by
  obtain ⟨o, ho, hforward⟩ := hl.exists_forward cls
  have hfirst : push cls (([] : List (Operand Expr)).map Operand.store) lhs.store false = _ :=
    push_store ⟨o, ho, hforward⟩
  have hin : o ∈ Expr.insertTerms cls [] lhs false :=
    (Expr.insertTerms_perm cls [] lhs false).mem_iff.2 ho
  rw [List.map_nil] at hfirst
  simp only [pair, hfirst, Expr.operands_store]
  exact push_store ⟨o, List.mem_append_left _ hin, hforward⟩

theorem join_store (hl : lhs.Canonical) (cls : OpClass) (rhs : Expr) (reverse : Bool) :
    lhs.store.join cls rhs.store reverse = .ok (lhs.join cls rhs reverse).store := by
  cases lhs with
  | number v =>
    have hpair := pair_store hl cls rhs reverse
    rw [Expr.store] at hpair ⊢
    exact hpair
  | compound c ops =>
    have hpair := pair_store hl cls rhs reverse
    rw [Expr.store_compound] at hpair ⊢
    rw [join, Expr.join]
    split
    next hcls =>
      subst hcls
      exact push_operands_store (hl.operands_of_cls? rfl) rhs reverse
    next => exact hpair

theorem push?_store (hl : lhs.Canonical) (rhs : Expr) (reverse : Bool) :
    lhs.store.push? rhs.store reverse =
      (lhs.push? rhs reverse).map fun e => .ok e.store := by
  cases lhs with
  | number v => simp [Expr.store, push?, Expr.push?]
  | compound cls ops =>
    have hpush := push_operands_store (hl.operands_of_cls? rfl) rhs reverse
    rw [Expr.operands] at hpush
    rw [Expr.store_compound, push?, hpush, Expr.push?, Option.map_some]

theorem arrange_store (symbol : Symbol) (lhs rhs : Expr) :
    arrange symbol lhs.store rhs.store =
      (symbol.arrange lhs rhs).map fun sides => (sides.1.store, sides.2.store) := by
  cases symbol with
  | add | mul | div | revDiv => rfl
  | sub =>
    simp only [arrange, Symbol.arrange, Expr.value_store]
    cases lhs.value with
    | none => rfl
    | some v =>
      cases rhs.value with
      | none => rfl
      | some w => by_cases hlt : v < w <;> simp [hlt]

theorem combine_store (hl : lhs.Canonical) (hr : rhs.Canonical) (symbol : Symbol) :
    combine lhs.store symbol rhs.store =
      .ok ((TwentyFour.combine lhs symbol rhs).map Expr.store) := by
  unfold combine TwentyFour.combine
  rw [arrange_store]
  cases harrange : symbol.arrange lhs rhs with
  | none => rfl
  | some sides =>
    obtain ⟨a, b⟩ := sides
    have ha : a.Canonical := by
      rcases Symbol.arrange_cases harrange with ⟨rfl, rfl⟩ | ⟨rfl, rfl⟩
      · exact hl
      · exact hr
    have hdivides : dividesByZero symbol b.store = symbol.dividesByZero b := by
      rw [dividesByZero, Expr.value_store, Symbol.dividesByZero]
    simp only [Option.map_some, hdivides, join_store ha, Expr.value_store]
    split
    · rfl
    · split <;> rfl

end Operations

/-! ## Everything that can be built -/

/-- The expressions with stored values that the operations can build. -/
inductive Built : Stored → Prop where
  | number (v : Rat) : Built (.number v)
  | join {lhs rhs s : Stored} (hl : Built lhs) (hr : Built rhs) {cls : OpClass}
      {reverse : Bool} (h : lhs.join cls rhs reverse = .ok s) : Built s
  | combine {lhs rhs s : Stored} (hl : Built lhs) (hr : Built rhs) {symbol : Symbol}
      (h : combine lhs symbol rhs = .ok (some s)) : Built s
  | pair {lhs rhs s : Stored} (hl : Built lhs) (hr : Built rhs) {cls : OpClass}
      {reverse : Bool} (h : pair cls lhs rhs reverse = .ok s) : Built s
  | push {lhs rhs s : Stored} (hl : Built lhs) (hr : Built rhs) {reverse : Bool}
      (h : lhs.push? rhs reverse = some (.ok s)) : Built s

theorem built_store {e : Expr} (he : e.Built) : Built e.store := by
  induction he with
  | number v =>
    rw [Expr.store]
    exact .number v
  | join hl _ cls reverse ihl ihr => exact .join ihl ihr (join_store hl.canonical ..)
  | @combine _ _ _ hl hr symbol h ihl ihr =>
    have hcombine := combine_store hl.canonical hr.canonical symbol
    rw [h, Option.map_some] at hcombine
    exact .combine ihl ihr hcombine
  | pair hl _ cls reverse ihl ihr => exact .pair ihl ihr (pair_store hl.canonical ..)
  | @push _ rhs _ hl _ reverse h ihl ihr =>
    have hpush := push?_store hl.canonical rhs reverse
    rw [h, Option.map_some] at hpush
    exact .push ihl ihr hpush

theorem Built.exists_store {s : Stored} (hs : Built s) : ∃ e : Expr, e.Built ∧ s = e.store := by
  induction hs with
  | number v => exact ⟨.number v, .number v, by rw [Expr.store]⟩
  | @join _ _ _ _ _ cls reverse h ihl ihr =>
    obtain ⟨a, ha, rfl⟩ := ihl
    obtain ⟨b, hb, rfl⟩ := ihr
    rw [join_store ha.canonical] at h
    exact ⟨_, .join ha hb cls reverse, (Except.ok.inj h).symm⟩
  | combine _ _ h ihl ihr =>
    obtain ⟨a, ha, rfl⟩ := ihl
    obtain ⟨b, hb, rfl⟩ := ihr
    rw [combine_store ha.canonical hb.canonical] at h
    obtain ⟨e, he, rfl⟩ := Option.map_eq_some_iff.1 (Except.ok.inj h)
    exact ⟨e, .combine ha hb he, rfl⟩
  | @pair _ _ _ _ _ cls reverse h ihl ihr =>
    obtain ⟨a, ha, rfl⟩ := ihl
    obtain ⟨b, hb, rfl⟩ := ihr
    rw [pair_store ha.canonical] at h
    exact ⟨_, .pair ha hb cls reverse, (Except.ok.inj h).symm⟩
  | push _ _ h ihl ihr =>
    obtain ⟨a, ha, rfl⟩ := ihl
    obtain ⟨b, hb, rfl⟩ := ihr
    rw [push?_store ha.canonical] at h
    obtain ⟨e, he, hs⟩ := Option.map_eq_some_iff.1 h
    exact ⟨e, .push ha hb he, (Except.ok.inj hs).symm⟩

/-- What can be built is what stores the values of an expression that can be built. -/
theorem built_iff {s : Stored} : Built s ↔ ∃ e : Expr, e.Built ∧ s = e.store := by
  constructor
  · exact Built.exists_store
  · rintro ⟨e, he, rfl⟩
    exact built_store he

end Stored

/-- The canonical expression of a tree is built by joining numbers. -/
theorem Tree.built_canon (t : Tree) : t.canon.Built := by
  induction t with
  | leaf v => exact .number v
  | node cls reverse lhs rhs ihl ihr => exact .join ihl ihr cls reverse

namespace Expr

/-- Reading only joins numbers. -/
theorem built_of_parse {text : String} {e : Expr} (h : parse text = .ok e) : e.Built := by
  obtain ⟨t, -, rfl, -⟩ := denotes_of_parse h
  exact t.built_canon

/-- The search only combines numbers. -/
theorem built_of_mem_solve {values : List Nat} {target : Int} {e : Expr}
    (h : e ∈ solve values target) : e.Built :=
  forall_mem_solve_of_combine (fun n => .number (n : Rat))
    (fun _ _ _ _ hl hr hcombine => .combine hl hr hcombine) h

end Expr

namespace Stored

/-! ## Equality -/

mutual

theorem same_iff : (s t : Stored) → (s.same t = true ↔ s.erase = t.erase)
  | .number v, .number w => by simp [same, erase]
  | .number _, .compound .. => by simp [same, erase]
  | .compound .., .number _ => by simp [same, erase]
  | .compound c xs v, .compound d ys w => by
    simp [same, erase, sameOperands_iff xs ys]

theorem sameOperands_iff : (xs ys : List (Operand Stored)) →
    (sameOperands xs ys = true ↔ eraseOperands xs = eraseOperands ys)
  | [], [] => by simp [sameOperands]
  | [], _ :: _ => by simp [sameOperands, eraseOperands]
  | _ :: _, [] => by simp [sameOperands, eraseOperands]
  | ⟨r, a⟩ :: xs, ⟨s, b⟩ :: ys => by
    simp [sameOperands, eraseOperands, same_iff a b, sameOperands_iff xs ys]

end

/-! ## The invariant -/

/-- What holds of the operands of every compound of class `cls`. -/
structure SoundOperands (cls : OpClass) (ops : List (Operand Stored)) : Prop where
  two_le : 2 ≤ ops.length
  sorted : SortedBy compareOperand ops
  head_forward : ∀ o ∈ ops.head?, o.reverse = false
  flat : ∀ o ∈ ops, o.expr.cls? ≠ some cls
  settled : ∀ o ∈ ops, o.reverse = true → o.expr.value ≠ some cls.identity

/-- The invariant holds at every compound, and what is stored there is what an
evaluation of the operands gives. -/
inductive Sound : Stored → Prop where
  | number (v : Rat) : Sound (.number v)
  | compound {cls : OpClass} {ops : List (Operand Stored)} {value : Option Rat}
      (hops : SoundOperands cls ops) (hvalue : evaluate cls ops = .ok value)
      (hsub : ∀ o ∈ ops, Sound o.expr) : Sound (.compound cls ops value)

theorem soundOperands_store {cls : OpClass} {ops : List (Operand Expr)}
    (h : CanonicalOperands cls ops) : SoundOperands cls (ops.map Operand.store) where
  two_le := by
    rw [List.length_map]
    exact h.two_le
  sorted := by
    refine List.pairwise_map.2 (h.sorted.imp fun hle => ?_)
    rw [compareOperand_store]
    exact hle
  head_forward := by
    cases ops with
    | nil => simp
    | cons o rest =>
      intro p hp
      rw [List.map_cons, List.head?_cons, Option.mem_some_iff] at hp
      rw [← hp]
      exact h.head_forward
  flat := by
    refine List.forall_mem_map.2 fun o ho => ?_
    rw [Operand.store, Expr.cls?_store]
    exact h.flat o ho
  settled := by
    refine List.forall_mem_map.2 fun o ho => ?_
    rw [Operand.store, Expr.value_store]
    exact Operand.settled_iff.1 (h.settled o ho)

theorem sound_store {e : Expr} (he : e.Canonical) : e.store.Sound := by
  induction he with
  | number v =>
    rw [Expr.store]
    exact .number v
  | @compound cls ops hops hsub ih =>
    have hsort : Operand.sort ops = ops :=
      (sortedBy_sortBy ops).eq_of_perm hops.sorted (sortBy_perm _ _)
    have hvalue := evaluate_store cls hops.forward
    rw [hsort] at hvalue
    rw [Expr.store_compound]
    exact .compound (soundOperands_store hops) hvalue (List.forall_mem_map.2 ih)

/-- Every compound of what can be built has sorted operands of other classes, two at
least and the first of them not reversed, and stores their value.  No evaluation is
refused, and expressions that compare equal store the same value.  What is parsed and
what a search finds is built in these ways. -/
theorem sound_of_built :
    (∀ s, Built s → s.Sound ∧ s.value = s.erase.value) ∧
    (∀ s t, Built s → Built t → ∀ cls reverse symbol,
      (∃ u, s.join cls t reverse = .ok u ∧ u.erase = s.erase.join cls t.erase reverse) ∧
      (∃ u, pair cls s t reverse = .ok u ∧
        u.erase = Expr.pair cls s.erase t.erase reverse) ∧
      (∀ r, s.push? t reverse = some r →
        ∃ u, r = .ok u ∧ s.erase.push? t.erase reverse = some u.erase) ∧
      (∃ u, combine s symbol t = .ok u ∧
        u.map erase = TwentyFour.combine s.erase symbol t.erase)) ∧
    (∀ s t, Built s → Built t → s.same t = true → s.value = t.value) ∧
    (∀ text e, Expr.parse text = .ok e → ∃ s, Built s ∧ s.erase = e) ∧
    (∀ values target, ∀ e ∈ solve values target, ∃ s, Built s ∧ s.erase = e) := by
  refine ⟨?_, ?_, ?_, ?_, ?_⟩
  · intro s hs
    obtain ⟨e, he, rfl⟩ := hs.exists_store
    exact ⟨sound_store he.canonical, by simp⟩
  · intro s t hs ht cls reverse symbol
    obtain ⟨a, ha, rfl⟩ := hs.exists_store
    obtain ⟨b, hb, rfl⟩ := ht.exists_store
    refine ⟨?_, ?_, ?_, ?_⟩
    · exact ⟨_, join_store ha.canonical cls b reverse, by simp⟩
    · exact ⟨_, pair_store ha.canonical cls b reverse, by simp⟩
    · intro r hr
      rw [push?_store ha.canonical] at hr
      obtain ⟨e, he, rfl⟩ := Option.map_eq_some_iff.1 hr
      exact ⟨_, rfl, by simpa using he⟩
    · refine ⟨_, combine_store ha.canonical hb.canonical symbol, ?_⟩
      cases hresult : TwentyFour.combine a symbol b <;> simp [hresult]
  · intro s t hs ht hsame
    obtain ⟨a, -, rfl⟩ := hs.exists_store
    obtain ⟨b, -, rfl⟩ := ht.exists_store
    have herase := (same_iff _ _).1 hsame
    rw [Expr.erase_store, Expr.erase_store] at herase
    rw [herase]
  · intro text e he
    exact ⟨_, built_store (Expr.built_of_parse he), e.erase_store⟩
  · intro values target e he
    exact ⟨_, built_store (Expr.built_of_mem_solve he), e.erase_store⟩

/-- The sum `4 - 1` with its value. -/
def fourLessOne : Stored :=
  .compound .additive [⟨false, .number 4⟩, ⟨true, .number 1⟩] (some 3)

/-- The sum `1 + 10 - 4` with its value. -/
def oneTenLessFour : Stored :=
  .compound .additive [⟨false, .number 1⟩, ⟨false, .number 10⟩, ⟨true, .number 4⟩] (some 7)

/-- The sum `10 - (4 - 1)` is stored as `1 + 10 - 4`, with the value 7.  Dividing it by
0, or adding 1 to it, is not refused. -/
theorem sound_of_built_one_ten_less_four :
    (number 10).join .additive fourLessOne true = .ok oneTenLessFour ∧
      oneTenLessFour.Sound ∧ oneTenLessFour.erase.value = some 7 ∧
      (∃ u, oneTenLessFour.join .multiplicative (.number 0) true = .ok u ∧
        u.erase = oneTenLessFour.erase.join .multiplicative (.number 0) true) ∧
      (∃ u, oneTenLessFour.push? (.number 1) false = some (.ok u) ∧
        oneTenLessFour.erase.push? (.number 1) false = some u.erase) ∧
      (∃ s, Built s ∧ s.erase = oneTenLessFour.erase) ∧
      (∃ s, Built s ∧ s.erase = .number 5) := by
  have hinner : (number 4).join .additive (number 1) true = .ok fourLessOne := by
    with_unfolding_all rfl
  have houter : (number 10).join .additive fourLessOne true = .ok oneTenLessFour := by
    with_unfolding_all rfl
  have hbuilt : Built oneTenLessFour :=
    .join (.number 10) (.join (.number 4) (.number 1) hinner) houter
  obtain ⟨hsound, hstrict, hequal, hparsed, hfound⟩ := sound_of_built
  obtain ⟨hsound', hvalue⟩ := hsound _ hbuilt
  obtain ⟨hjoin, -, -, -⟩ := hstrict _ _ hbuilt (.number 0) .multiplicative true .add
  obtain ⟨-, -, hpush, -⟩ := hstrict _ _ hbuilt (.number 1) .additive false .add
  have hsame : oneTenLessFour.same oneTenLessFour = true := (same_iff _ _).2 rfl
  have hparse : Expr.parse "10 - (4 - 1)" = .ok oneTenLessFour.erase := by
    decide +kernel
  have hsolve : Expr.number 5 ∈ solve [5] 5 := by
    refine mem_solve.2 ⟨by simp, by simp, State.ofValues [5], ?_, rfl⟩
    rw [lastRound_of_not_reducible (by decide)]
    exact List.mem_singleton_self _
  refine ⟨houter, hsound', ?_, hjoin, ?_, hparsed _ _ hparse, hfound _ _ _ hsolve⟩
  · rw [← hvalue, ← hequal _ _ hbuilt hbuilt hsame]
    rfl
  · obtain ⟨u, hu, herase⟩ := hpush _ rfl
    exact ⟨u, congrArg some hu, herase⟩

end Stored

end TwentyFour
