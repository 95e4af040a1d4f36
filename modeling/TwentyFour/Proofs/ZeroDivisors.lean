import TwentyFour.Proofs.Segments
import TwentyFour.Proofs.SyntaxErrors
import TwentyFour.Text.Words

/-!
# Division by zero

The error for a division by zero is about the first divisor of the text that is zero, and
it comes if there is one in front of the first impossible token.

* `ZeroDivisor` says where in the tokens a divisor stands that is zero.
* `Cleared` says that no sign in front of a rest has a divisor that is zero.
  `Derives.cleared` says so of what has a value.
* `Blamed` and `Halted` are the two ways in which the readers stop: at the first zero
  divisor, or at the first impossible token without a zero divisor before it.
* `stops_sum` and the five theorems beside it say that they stop in one of them, by
  recursion along the readers.
* `Expr.divisionByZero_of_parse` puts this together for whole texts.
-/

namespace TwentyFour

/-! ## Divisors -/

/-- Behind the front and a sign of division stands an operand that is zero. -/
def ZeroDivisor (ts front operand rest : List Token) : Prop :=
  ∃ sign t, ts = front ++ sign :: (operand ++ rest) ∧ sign.kind = .div ∧
    Derives .operand (operand ++ rest) t rest ∧ t.eval = some 0

/-- Nothing that can be read as a divisor behind the token is zero. -/
def Harmless (tok : Token) (ts : List Token) : Prop :=
  tok.kind = .div → ∀ t rest, Derives .operand ts t rest → t.eval ≠ some 0

/-- The tokens end with a rest, and no sign in front of the rest has a divisor that is
zero. -/
inductive Cleared : List Token → List Token → Prop where
  | refl (ts : List Token) : Cleared ts ts
  | cons {tok : Token} {ts rest : List Token} (htok : Harmless tok ts)
      (hts : Cleared ts rest) : Cleared (tok :: ts) rest

namespace Cleared

variable {ts us rest : List Token}

theorem of_ne {tok : Token} (h : tok.kind ≠ .div) (ts : List Token) :
    Cleared (tok :: ts) ts :=
  .cons (fun hdiv => absurd hdiv h) (.refl ts)

theorem trans (h : Cleared ts us) (h' : Cleared us rest) : Cleared ts rest := by
  induction h with
  | refl => exact h'
  | cons htok _ ih => exact .cons htok (ih h')

theorem exists_append (h : Cleared ts rest) : ∃ front, ts = front ++ rest := by
  induction h with
  | refl => exact ⟨[], rfl⟩
  | @cons tok _ _ _ _ ih =>
    obtain ⟨front, rfl⟩ := ih
    exact ⟨tok :: front, rfl⟩

/-- A sign in front of the rest is harmless. -/
theorem harmless {front : List Token} {sign : Token} (h : Cleared ts rest)
    (hts : ts = front ++ sign :: us) (hle : rest.length ≤ us.length) :
    Harmless sign us := by
  induction h generalizing front with
  | refl =>
    rw [hts] at hle
    simp at hle
    omega
  | cons htok _ ih =>
    cases front with
    | nil =>
      obtain ⟨rfl, rfl⟩ := List.cons.inj hts
      exact htok
    | cons tok front => exact ih (List.cons.inj hts).2 hle

end Cleared

namespace Derives

theorem length_lt_of_operand {ts rest : List Token} {t : Tree}
    (h : Derives .operand ts t rest) : rest.length < ts.length := by
  cases h with
  | int => simp
  | paren _ hsum _ =>
    obtain ⟨front, rfl, -⟩ := hsum.taken
    simp
    omega

/-- A divisor of something with a value is not zero. -/
theorem harmless {cls : OpClass} {reverse : Bool} {sign : Token} {ts us : List Token}
    {t u : Tree} (hsign : sign.kind.direction? cls = some reverse)
    (hitem : Derives cls.item ts u us) (hvalue : (Tree.node cls reverse t u).eval.isSome) :
    Harmless sign ts := by
  intro hdiv u' us' hitem' hzero
  rw [hdiv] at hsign
  cases cls with
  | additive => simp [Kind.direction?] at hsign
  | multiplicative =>
    obtain rfl : true = reverse := Option.some.inj hsign
    have hany : ∀ vs, Part.operand.Follows vs := fun _ _ _ => rfl
    obtain ⟨rfl, -⟩ := hitem.unique (hany us) hitem' (hany us')
    obtain ⟨x, hx⟩ := Option.isSome_iff_exists.1 hvalue
    obtain ⟨v, w, -, hw, happly⟩ := Tree.eval_node_eq_some.1 hx
    obtain rfl : w = 0 := Option.some.inj (hw.symm.trans hzero)
    simp [OpClass.apply] at happly

/-- No divisor in what has a value is zero. -/
theorem cleared {part : Part} {ts rest : List Token} {t : Tree}
    (h : Derives part ts t rest) (hvalue : t.eval.isSome) : Cleared ts rest := by
  induction h with
  | int hkind => exact .of_ne (by simp [hkind]) _
  | paren hopening _ hclosing ih =>
    have hinside := (ih hvalue).trans (.of_ne (by simp [hclosing]) _)
    exact (Cleared.of_ne (by simp [hopening]) _).trans hinside
  | product _ hafter ihfirst ihafter | sum _ hafter ihfirst ihafter =>
    exact (ihfirst (hafter.isSome_eval_of_after hvalue rfl)).trans (ihafter hvalue)
  | plus hsign _ hafter ihfirst ihafter =>
    have hfirst := ihfirst (hafter.isSome_eval_of_after hvalue rfl)
    exact (Cleared.of_ne (by simp [hsign]) _).trans (hfirst.trans (ihafter hvalue))
  | stop => exact .refl _
  | more hsign hitem hafter ihitem ihafter =>
    have hnode := hafter.isSome_eval_of_after hvalue rfl
    obtain ⟨x, hx⟩ := Option.isSome_iff_exists.1 hnode
    obtain ⟨-, w, -, hw, -⟩ := Tree.eval_node_eq_some.1 hx
    have hbehind := (ihitem (by rw [hw]; rfl)).trans (ihafter hvalue)
    exact .cons (hitem.harmless hsign hnode) hbehind

end Derives

/-! ## How the readers stop -/

/-- The error is about a divisor that is zero, and no sign before has such a divisor. -/
def Blamed (text : String) (ts : List Token) (e : Error) : Prop :=
  ∃ sign operand rest t, Cleared ts (sign :: (operand ++ rest)) ∧ sign.kind = .div ∧
    Derives .operand (operand ++ rest) t rest ∧ t.eval = some 0 ∧
    e = .about (extent operand) (.divisionByZero (suffixFrom text (extent operand).start))

/-- The error is about something else, and no sign before the first impossible token has
a divisor that is zero. -/
def Halted (text : String) (ts : List Token) (e : Error) : Prop :=
  (∀ remainder, e.cause ≠ .divisionByZero remainder) ∧
    ∃ front rest, visibleTokens text = front ++ rest ∧
      FirstImpossible (visibleTokens text) front.length ∧ Cleared ts rest

theorem Blamed.of_cleared {text : String} {ts us : List Token} {e : Error}
    (h : Blamed text us e) (hts : Cleared ts us) : Blamed text ts e := by
  obtain ⟨sign, operand, rest, t, hus, hblame⟩ := h
  exact ⟨sign, operand, rest, t, hts.trans hus, hblame⟩

theorem Halted.of_cleared {text : String} {ts us : List Token} {e : Error}
    (h : Halted text us e) (hts : Cleared ts us) : Halted text ts e := by
  obtain ⟨hcause, front, rest, htokens, hfirst, hus⟩ := h
  exact ⟨hcause, front, rest, htokens, hfirst, hts.trans hus⟩

/-- If the step fails, it stops in one of the two ways. -/
def Step.Stops {limit : Nat} {α : Type} (text : String) (ts : List Token) :
    Step limit α → Prop
  | .done _ _ _ => True
  | .fail error _ => Blamed text ts error ∨ Halted text ts error

namespace Step.Stops

variable {m n : Nat} {α : Type} {text : String} {ts us : List Token}

theorem weaken {step : Step m α} (h : step.Stops text ts) (hle : m ≤ n) :
    (step.weaken hle).Stops text ts := by
  cases step <;> exact h

theorem of_cleared {step : Step m α} (h : step.Stops text us) (hts : Cleared ts us) :
    step.Stops text ts := by
  cases step with
  | done => trivial
  | fail error rest => exact h.imp (·.of_cleared hts) (·.of_cleared hts)

end Step.Stops

namespace Parser

/-! ### Where no token can be taken -/

section Halts

variable {text : String} {place : Place} {opened : List Token} {p q : Parser} {tok : Token}
  {rest : List Token} {e : Error}

theorem At.lexed (hp : p.At text place) : Lexed p.items :=
  fun tok htok => lexed_visibleTokens text tok (hp.mem_visibleTokens htok)

theorem At.halted (hp : p.At text place) (hitems : p.items = tok :: rest)
    (hstep : place.step tok = none) (hcause : ∀ remainder, e.cause ≠ .divisionByZero remainder) :
    Halted text p.items e := by
  obtain ⟨front, hfront, hafter⟩ := hp.front
  refine ⟨hcause, front, p.items, hfront, ?_, .refl _⟩
  rw [hfront, hitems]
  exact .of_step hafter hstep

theorem At.halted_end (hp : p.At text place) (hitems : p.items = [])
    (hplace : place ≠ ⟨[], .sign⟩) (hcause : ∀ remainder, e.cause ≠ .divisionByZero remainder) :
    Halted text p.items e := by
  obtain ⟨front, hfront, hafter⟩ := hp.front
  refine ⟨hcause, front, p.items, hfront, ?_, .refl _⟩
  rw [hfront, hitems, List.append_nil]
  exact .of_end hafter hplace

theorem At.halted_of_next (hp : p.At text place) (h : p.next = (.error e, q)) :
    Halted text p.items e := by
  obtain ⟨tok, rest, hitems, hkind, rfl⟩ := symbol_of_next h
  exact hp.halted hitems (place.step_symbol hkind) (by simp [TokenStream.invalid, Error.about])

theorem At.halted_of_peek (hp : p.At text place) (h : p.peek = (.error e, q)) :
    Halted text p.items e := by
  rcases peek_cases h with ⟨tok, r, houtcome, -, -⟩ | ⟨-, hnext⟩
  · simp at houtcome
  · exact hp.halted_of_next hnext

theorem BeforeSum.halted_of_skipPlus (hp : p.BeforeSum text opened)
    (h : p.skipPlus = (.error e, q)) : Halted text p.items e := by
  unfold skipPlus at h
  split at h
  next e' r hnext =>
    obtain rfl := Except.error.inj (Prod.mk.inj h).1
    exact hp.place.halted_of_next hnext
  · simp at h
  · simp at h

theorem BeforeOperand.halted (hp : p.BeforeOperand text opened)
    (hitems : p.items = tok :: rest) (hint : tok.kind ≠ .int) (hopen : tok.kind ≠ .openParen)
    (hcause : ∀ remainder, e.cause ≠ .divisionByZero remainder) : Halted text p.items e := by
  obtain ⟨expects, hplace, hstep, -⟩ := hp.step_eq_none hitems hint hopen
  exact hplace.halted hitems hstep hcause

end Halts

/-! ### The check of the value -/

/-- The value of a product is missing only because of a zero divisor. -/
theorem zero_of_isNone {reverse : Bool} {sign : Token} {lhs rhs : Tree}
    (hsign : sign.kind.direction? .multiplicative = some reverse) (hl : lhs.eval.isSome)
    (hr : rhs.eval.isSome)
    (h : (Tree.node .multiplicative reverse lhs rhs).canon.value.isNone = true) :
    sign.kind = .div ∧ rhs.eval = some 0 := by
  obtain ⟨v, hv⟩ := Option.isSome_iff_exists.1 hl
  obtain ⟨w, hw⟩ := Option.isSome_iff_exists.1 hr
  rw [Tree.value_canon_node hv hw, Tree.eval, hv, hw] at h
  cases reverse with
  | false => simp [OpClass.apply] at h
  | true =>
    have hdiv : sign.kind = .div := by
      cases hk : sign.kind <;> simp_all [Kind.direction?]
    have hzero : w = 0 := by
      by_contra hne
      simp [OpClass.apply, hne] at h
    exact ⟨hdiv, hzero ▸ hw⟩

/-! ### Taking what is harmless -/

theorem cleared_skipPlus {p rest : Parser} (h : p.skipPlus = (.ok (), rest)) :
    Cleared p.items rest.items := by
  rcases items_skipPlus h with hplus | heq
  · obtain ⟨sign, hsign, hitems⟩ := hplus
    rw [hitems]
    exact .of_ne (by simp [hsign]) _
  · rw [heq]
    exact .refl _

/-- An operand that is not read has no value. -/
theorem harmless_of_fail {p after : Parser} {error : Error} (hlexed : Lexed p.items)
    (hread : p.operand = .fail error after) (tok : Token) : Harmless tok p.items := by
  intro _ t rest ht hzero
  have hany : Part.operand.Follows rest := fun _ _ => rfl
  obtain ⟨q, -, span, hresult⟩ := exists_reads ht hlexed (by rw [hzero]; rfl) hany rfl
  rw [hread] at hresult
  simp [Step.result?] at hresult

theorem span_of_paren {opening : Token} {p rest : Parser} {e : Expr} {span : Span}
    (hlexed : Lexed p.items) (h : (paren opening p).result? = some ((e, span), rest)) :
    ∃ inside closing, p.items = inside ++ closing :: rest.items ∧
      span = ⟨opening.span.start, closing.span.stop⟩ := by
  obtain ⟨ahead, q, after, closing, hpeek, hsum, hclose, -, hspan⟩ := paren_eq_some h
  have hpeeked := items_peek hpeek
  have hq : q.enter.items = p.items := hpeeked
  obtain ⟨t, ht, -⟩ := denotes_of_sum (hq ▸ hlexed) hsum
  obtain ⟨inside, hinside, -⟩ := ht.taken
  have hleft := items_next hclose
  have hafter : after.items = closing :: rest.items := hleft
  rw [hq, hafter] at hinside
  exact ⟨inside, closing, hinside, hspan⟩

/-- The span that comes with an operand is the one of its tokens. -/
theorem span_of_operand {p rest : Parser} {e : Expr} {span : Span} (hlexed : Lexed p.items)
    (h : p.operand.result? = some ((e, span), rest)) :
    ∃ operand, p.items = operand ++ rest.items ∧ span = extent operand := by
  rw [result?_operand] at h
  rcases hnext : p.next with ⟨_ | _ | tok, q⟩
  · simp [hnext] at h
  · simp [hnext] at h
  rw [hnext] at h
  dsimp only at h
  rw [items_next hnext] at hlexed ⊢
  cases hkind : tok.kind with
  | int =>
    rw [hkind, hlexed tok List.mem_cons_self hkind] at h
    obtain ⟨heq, rfl⟩ := Prod.mk.inj (Option.some.inj h)
    exact ⟨[tok], rfl, (Prod.mk.inj heq).2.symm⟩
  | openParen =>
    rw [hkind] at h
    obtain ⟨inside, closing, hitems, hspan⟩ := span_of_paren hlexed.of_cons h
    exact ⟨tok :: (inside ++ [closing]), by simp [hitems], by rw [hspan, extent_cons_concat]⟩
  | closeParen | blank | add | sub | mul | div | symbol =>
    rw [hkind] at h
    simp at h

section Reads

variable {text : String} {opened : List Token} {p after : Parser}

theorem BeforeOperand.lexed (hp : p.BeforeOperand text opened) : Lexed p.items := by
  obtain ⟨expects, -, hplace, -⟩ := hp.place
  exact hplace.lexed

theorem BeforeOperand.of_product {r : Expr × Span} {hshorter : after.tokens.size < p.size}
    (hp : p.BeforeOperand text opened) (hread : p.product = .done r after hshorter) :
    after.BehindOperand text opened ∧ Denotes .product p.items r.1 after.items := by
  have hreaches := reaches_product hp
  have hresult : p.product.result? = some (r, after) := by rw [hread]; rfl
  rw [hread] at hreaches
  exact ⟨hreaches.1, denotes_of_product hp.lexed hresult⟩

theorem BeforeOperand.of_operand {r : Expr × Span} {hshorter : after.tokens.size < p.size}
    (hp : p.BeforeOperand text opened) (hread : p.operand = .done r after hshorter) :
    after.BehindOperand text opened ∧ Denotes .operand p.items r.1 after.items ∧
      ∃ operand, p.items = operand ++ after.items ∧ r.2 = extent operand := by
  have hreaches := reaches_operand hp
  have hresult : p.operand.result? = some (r, after) := by rw [hread]; rfl
  rw [hread] at hreaches
  exact ⟨hreaches.1, denotes_of_operand hp.lexed hresult, span_of_operand hp.lexed hresult⟩

theorem BeforeSum.of_sum {e : Expr} {hshorter : after.tokens.size < p.size}
    (hp : p.BeforeSum text opened) (hread : p.sum = .done e after hshorter) :
    after.BehindOperand text opened ∧ (∀ tok ∈ after.items.head?, EndsSum tok.kind) ∧
      Cleared p.items after.items := by
  have hreaches := reaches_sum hp
  have hresult : p.sum.result? = some (e, after) := by rw [hread]; rfl
  obtain ⟨t, ht, -, hvalue⟩ := denotes_of_sum hp.place.lexed hresult
  rw [hread] at hreaches
  exact ⟨hreaches.1, hreaches.2, ht.cleared hvalue⟩

end Reads

/-! ### The readers -/

-- The recursion is that of the readers, with their measure.
mutual

theorem stops_sum {text : String} {opened : List Token} {p : Parser}
    (hp : p.BeforeSum text opened) : p.sum.Stops text p.items := by
  rw [sum]
  split
  next hskip => exact .inr (hp.halted_of_skipPlus hskip)
  next rest hskip =>
    have hsize := size_skipPlus hskip
    have hbefore := hp.of_skipPlus hskip
    have hskipped := cleared_skipPlus hskip
    have hproduct := stops_product hbefore
    cases hread : rest.product with
    | fail error after =>
      rw [hread] at hproduct
      exact hproduct.of_cleared hskipped
    | done r after hshorter =>
      have hlt : after.size < rest.size := hshorter
      obtain ⟨hafter, t, ht, hcanon, hvalue⟩ := hbefore.of_product hread
      have hrest := stops_sumAfter hvalue hafter
      rw [hcanon] at hrest
      exact (hrest.weaken _).of_cleared (hskipped.trans (ht.cleared hvalue))
termination_by 6 * p.size + 4
decreasing_by all_goals simp only [size] at *; omega

theorem stops_sumAfter {text : String} {opened : List Token} {p : Parser} {lhs : Tree}
    (hlhs : lhs.eval.isSome) (hp : p.BehindOperand text opened) :
    (sumAfter lhs.canon p).Stops text p.items := by
  rw [sumAfter]
  split
  next hnext => exact .inr (hp.place.halted_of_next hnext)
  next => trivial
  next tok rest hnext =>
    have hsize := size_next hnext
    have hitems := items_next hnext
    split
    next reverse hdirection =>
      have hbefore := hp.sign hnext (Kind.isSign_iff.2 ⟨.additive, reverse, hdirection⟩)
      have hsign : Cleared p.items rest.items := by
        rw [hitems]
        refine .of_ne (fun hdiv => ?_) _
        simp [hdiv, Kind.direction?] at hdirection
      have hproduct := stops_product hbefore
      cases hread : rest.product with
      | fail error after =>
        rw [hread] at hproduct
        exact hproduct.of_cleared hsign
      | done r after hshorter =>
        have hlt : after.size < rest.size := hshorter
        obtain ⟨hafter, t, ht, hcanon, hvalue⟩ := hbefore.of_product hread
        have hnode : (Tree.node .additive reverse lhs t).eval.isSome :=
          isSome_eval_node_additive hlhs hvalue
        have hrest := stops_sumAfter hnode hafter
        rw [Tree.canon, hcanon] at hrest
        exact (hrest.weaken _).of_cleared (hsign.trans (ht.cleared hvalue))
    next hdirection =>
      split
      next hkind =>
        have hstep : (Place.mk opened .sign).step tok = none :=
          Place.step_operand (by simpa using hkind)
        exact .inr (hp.place.halted hitems hstep (by simp [Error.about]))
      next => trivial
termination_by 6 * p.size
decreasing_by all_goals simp only [size] at *; omega

theorem stops_product {text : String} {opened : List Token} {p : Parser}
    (hp : p.BeforeOperand text opened) : p.product.Stops text p.items := by
  rw [product]
  have hoperand := stops_operand hp
  cases hread : p.operand with
  | fail error after =>
    rw [hread] at hoperand
    exact hoperand
  | done r after hshorter =>
    have hlt : after.size < p.size := hshorter
    obtain ⟨hafter, ⟨t, ht, hcanon, hvalue⟩, -⟩ := hp.of_operand hread
    have hrest := stops_productAfter r.2 hvalue hafter
    rw [hcanon] at hrest
    exact (hrest.weaken _).of_cleared (ht.cleared hvalue)
termination_by 6 * p.size + 3
decreasing_by all_goals simp only [size] at *; omega

theorem stops_productAfter {text : String} {opened : List Token} {p : Parser} {lhs : Tree}
    (span : Span) (hlhs : lhs.eval.isSome) (hp : p.BehindOperand text opened) :
    (productAfter lhs.canon span p).Stops text p.items := by
  rw [productAfter]
  split
  next hnext => exact .inr (hp.place.halted_of_next hnext)
  next => trivial
  next tok rest hnext =>
    have hsize := size_next hnext
    have hitems := items_next hnext
    split
    next reverse hdirection =>
      have hbefore :=
        hp.sign hnext (Kind.isSign_iff.2 ⟨.multiplicative, reverse, hdirection⟩)
      have hoperand := stops_operand hbefore
      cases hread : rest.operand with
      | fail error after =>
        -- what is not read as an operand is no divisor that is zero
        have hsign : Cleared p.items rest.items := by
          rw [hitems]
          exact .cons (harmless_of_fail hbefore.lexed hread tok) (.refl _)
        rw [hread] at hoperand
        exact hoperand.of_cleared hsign
      | done r after hshorter =>
        have hlt : after.size < rest.size := hshorter
        obtain ⟨hafter, ⟨t, ht, hcanon, hvalue⟩, operand, hrest, hspan⟩ :=
          hbefore.of_operand hread
        have hjoined : lhs.canon.join .multiplicative r.1 reverse =
            (Tree.node .multiplicative reverse lhs t).canon := by
          rw [Tree.canon, hcanon]
        dsimp only
        rw [hjoined]
        split
        next hnone =>
          -- the check is about the whole product, but both sides of the sign have values
          obtain ⟨hdiv, hzero⟩ := zero_of_isNone hdirection hlhs hvalue hnone
          rw [hrest] at hitems ht
          refine .inl ⟨tok, operand, after.items, t, hitems ▸ .refl _, hdiv, ht, hzero, ?_⟩
          rw [remainder, TokenStream.remainderFrom, hafter.place.source, hspan]
        next hsome =>
          have hnode : (Tree.node .multiplicative reverse lhs t).eval.isSome := by
            rw [← isSome_value_canon_node hlhs hvalue]
            simpa [Option.isSome_iff_ne_none] using hsome
          have hderives : Derives (.after .multiplicative lhs) p.items
              (.node .multiplicative reverse lhs t) after.items :=
            hitems ▸ .more hdirection ht .stop
          have hstops := stops_productAfter ⟨span.start, r.2.stop⟩ hnode hafter
          exact (hstops.weaken _).of_cleared (hderives.cleared hnode)
    next => trivial
termination_by 6 * p.size
decreasing_by all_goals simp only [size] at *; omega

theorem stops_operand {text : String} {opened : List Token} {p : Parser}
    (hp : p.BeforeOperand text opened) : p.operand.Stops text p.items := by
  obtain ⟨expects, hexpects, hplace, -⟩ := hp.place
  rw [operand]
  split
  next hnext => exact .inr (hplace.halted_of_next hnext)
  next rest hnext =>
    have hne : Place.mk opened expects ≠ ⟨[], .sign⟩ := fun heq =>
      hexpects (Place.mk.inj heq).2
    exact .inr (hplace.halted_end (items_next_none hnext).1 hne (by simp [Error.about]))
  next tok rest hnext =>
    have hsize := size_next hnext
    have hitems := items_next hnext
    split
    next hkind =>
      split
      next => trivial
      next error hread =>
        rw [hplace.lexed tok (by simp [hitems]) hkind] at hread
        simp at hread
    next hkind =>
      have hdepth := (next_eq hnext).2.trans hp.depth
      have hparen := stops_paren (hp.openParen hnext hkind) hdepth
      have hopening : Cleared p.items rest.items := by
        rw [hitems]
        exact .of_ne (by simp [hkind]) _
      exact (hparen.weaken _).of_cleared hopening
    next kind hint hopen =>
      split <;> exact .inr (hp.halted hitems hint hopen (by simp [Error.about]))
termination_by 6 * p.size + 2
decreasing_by all_goals simp only [size] at *; omega

theorem stops_paren {text : String} {opened : List Token} {p : Parser} {opening : Token}
    (hp : p.At text ⟨opening :: opened, .sum⟩) (hdepth : p.depth = opened.length) :
    (paren opening p).Stops text p.items := by
  rw [paren]
  split
  next hpeek => exact .inr (hp.halted_of_peek hpeek)
  next ahead rest hpeek =>
    have hsize := size_peek hpeek
    have henter := size_enter rest
    have hpeeked := items_peek hpeek
    have hitems : rest.enter.items = p.items := hpeeked
    split
    next closing hclosing =>
      obtain ⟨hsome, hkind⟩ := Option.filter_eq_some_iff.1 hclosing
      have hahead := (hp.of_peek hpeek).2
      obtain ⟨ts, hts⟩ := List.head?_eq_some_iff.1 (hahead.symm.trans hsome)
      have hstep : (Place.mk (opening :: opened) .sum).step closing = none := by
        simp [Place.step, show closing.kind = .closeParen by simpa using hkind]
      exact .inr (hp.halted hts hstep (by simp [Error.about]))
    next hnone =>
      have hinside := hp.beforeSum hdepth hpeek hnone
      have hsum := stops_sum hinside
      rw [hitems] at hsum
      cases hread : rest.enter.sum with
      | fail error after =>
        rw [hread] at hsum
        exact hsum
      | done e after hshorter =>
        obtain ⟨hafter, hends, htaken⟩ := hinside.of_sum hread
        rw [hitems] at htaken
        have hleave := hafter.place.leave
        dsimp only
        split
        next hnext => exact .inr ((hleave.halted_of_next hnext).of_cleared htaken)
        next final hnext =>
          have hend : after.items = [] := (items_next_none hnext).1
          have hhalted : Halted text after.items (final.unclosed opening) :=
            hafter.place.halted_end hend (by simp) (by simp [unclosed, Error.about])
          exact .inr (hhalted.of_cleared htaken)
        next tok final hnext =>
          have hleft := items_next hnext
          have hbehind : after.items = tok :: final.items := hleft
          have hkind : tok.kind = .closeParen := hends tok (by simp [hbehind])
          rw [if_pos hkind]
          trivial
termination_by 6 * p.size + 5
decreasing_by all_goals simp only [size] at *; omega

end

theorem stops_of_full {text : String} {e : Error} (h : (ofSource text).full.1 = .error e) :
    Blamed text (visibleTokens text) e ∨ Halted text (visibleTokens text) e := by
  have hstart : (ofSource text).BeforeSum text [] :=
    ⟨at_ofSource text, rfl, fun hne => absurd rfl hne⟩
  have hitems : (ofSource text).items = visibleTokens text := rfl
  have hsum := stops_sum hstart
  rw [hitems] at hsum
  unfold full at h
  split at h
  next error rest hread =>
    obtain rfl := Except.error.inj h
    rw [hread] at hsum
    exact hsum
  next e' rest hshorter hread =>
    obtain ⟨hrest, hends, htaken⟩ := hstart.of_sum hread
    split at h
    next hnext =>
      obtain rfl := Except.error.inj h
      exact .inr ((hrest.place.halted_of_next hnext).of_cleared htaken)
    · simp at h
    next tok final hnext =>
      obtain rfl := Except.error.inj h
      have hbehind := items_next hnext
      have hkind : tok.kind = .closeParen := hends tok (by simp [hbehind])
      have hstep : (Place.mk [] .sign).step tok = none := by simp [Place.step, hkind]
      exact .inr (.of_cleared (hrest.place.halted hbehind hstep (by simp [Error.about])) htaken)

end Parser

/-! ## The first zero divisor -/

/-- Of two signs in the same tokens, one is the other or comes behind it. -/
theorem sign_cases {xs ys us vs : List Token} {sign sign' : Token}
    (h : xs ++ sign :: us = ys ++ sign' :: vs) :
    us = vs ∨ (∃ zs, us = zs ++ sign' :: vs) ∨ ∃ zs, vs = zs ++ sign :: us := by
  rcases List.append_eq_append_iff.1 h with ⟨zs, -, hzs⟩ | ⟨zs, -, hzs⟩
  · cases zs with
    | nil => exact .inl (List.cons.inj hzs).2
    | cons tok zs => exact .inr (.inl ⟨zs, (List.cons.inj hzs).2⟩)
  · cases zs with
    | nil => exact .inl (List.cons.inj hzs).2.symm
    | cons tok zs => exact .inr (.inr ⟨zs, (List.cons.inj hzs).2⟩)

/-- The divisor that is blamed is the first one that is zero. -/
theorem ZeroDivisor.length_le {ts front operand rest operand' rest' : List Token}
    {sign : Token} {t : Tree} (hts : Cleared ts (sign :: (operand ++ rest)))
    (ht : Derives .operand (operand ++ rest) t rest) (hvalue : t.eval.isSome)
    (h : ZeroDivisor ts front operand' rest') : rest'.length ≤ rest.length := by
  obtain ⟨sign', t', heq', hsign', ht', hzero'⟩ := h
  obtain ⟨before, heq⟩ := hts.exists_append
  have hlength' := ht'.length_lt_of_operand
  by_contra! hlt
  rcases sign_cases (heq.symm.trans heq') with hsame | ⟨between, hinside⟩ | ⟨between, hbefore⟩
  · have hany : ∀ us, Part.operand.Follows us := fun _ _ _ => rfl
    rw [← hsame] at ht'
    obtain ⟨-, rfl⟩ := ht.unique (hany _) ht' (hany _)
    exact absurd hlt (Nat.lt_irrefl _)
  · -- the other sign is inside the divisor, which has a value
    have hle : rest.length ≤ (operand' ++ rest').length := by omega
    exact (ht.cleared hvalue).harmless hinside hle hsign' t' rest' ht' hzero'
  · have hle : (sign :: (operand ++ rest)).length ≤ (operand' ++ rest').length := by
      rw [hbefore]
      simp
    exact hts.harmless heq' hle hsign' t' rest' ht' hzero'

/-! ## Whole texts -/

/-- The last character that is not blank is a sign of division. -/
def BehindDivision (before : List Char) : Prop :=
  ∃ cs sign blanks, before = cs ++ sign :: blanks ∧ (sign = '/' ∨ sign = '÷') ∧
    ∀ c ∈ blanks, isBlank c = true

/-- The text is a single operand, and is zero if it is parsed. -/
def ZeroOperand (text : String) : Prop :=
  (∃ t, Derives .operand (visibleTokens text) t []) ∧
    ∃ e, Expr.parse text = .ok e ∧ e.value = some 0

theorem isBlank_of_ofChar {c : Char} (h : Kind.ofChar c = .blank) : isBlank c = true := by
  unfold Kind.ofChar at h
  split at h
  next hblank =>
    rcases (by simpa [or_assoc] using hblank : c = ' ' ∨ c = '\t' ∨ c = '\n' ∨ c = '\r') with
      rfl | rfl | rfl | rfl <;> rfl
  · (repeat' split at h) <;> simp at h

theorem sign_of_ofChar {c : Char} (h : Kind.ofChar c = .div) : c = '/' ∨ c = '÷' := by
  unfold Kind.ofChar at h
  (repeat' split at h) <;> simp_all

/-- Behind a sign of division come only blanks, up to the next visible token. -/
theorem behindDivision_of_tokens {text : String} {xs ys front : List Token} {sign : Token}
    (htokens : tokens text = xs ++ ys) (hvisible : visible xs = front ++ [sign])
    (hsign : sign.kind = .div) : BehindDivision (spelling xs) := by
  obtain ⟨us, vs, rfl, -, hvs⟩ := exists_of_visible hvisible
  have hmem : sign ∈ tokens text := by simp [htokens]
  obtain ⟨c, hc, hkind⟩ := exists_char_of_mem_tokens hmem (by simp [hsign, Kind.isRun])
  refine ⟨spelling us, c, spelling vs, by simp [hc], sign_of_ofChar (hkind.trans hsign), ?_⟩
  intro d hd
  obtain ⟨ds, hds, hmem⟩ := List.mem_flatten.1 hd
  obtain ⟨tok, htok, rfl⟩ := List.mem_map.1 hds
  have hblank : tok.kind = .blank := by
    by_contra hne
    have hnot := mem_visible.2 ⟨htok, hne⟩
    rw [hvs] at hnot
    simp at hnot
  have htext : tok ∈ tokens text := by simp [htokens, htok]
  have hgroup := mem_runs_of_mem_placeFrom htext
  exact isBlank_of_ofChar (((kind_of_mem_runs hgroup).2 d hmem).trans hblank)

/-- An operand behind a sign covers its characters. -/
theorem Cleared.covers {text : String} {sign : Token} {operand rest : List Token} {t : Tree}
    (h : Cleared (visibleTokens text) (sign :: (operand ++ rest)))
    (ht : Derives .operand (operand ++ rest) t rest) :
    ∃ front xs ys zs, visibleTokens text = front ++ sign :: (operand ++ rest) ∧
      tokens text = xs ++ ys ++ zs ∧ visible xs = front ++ [sign] ∧ visible ys = operand ∧
      Covers text (extent operand) (spelling xs) (spelling ys) (spelling zs) := by
  obtain ⟨front, htext⟩ := h.exists_append
  have hne : operand ≠ [] := by
    rintro rfl
    exact absurd ht.length_lt_of_operand (by simp)
  have hsplit : visibleTokens text = (front ++ [sign]) ++ operand ++ rest := by
    rw [htext]
    simp
  obtain ⟨xs, ys, zs, htokens, hxs, hys, -, hcovers⟩ := covers_of_visibleTokens hne hsplit
  exact ⟨front, xs, ys, zs, htext, htokens, hxs, hys, hcovers⟩

/-- The error for a division by zero is about a divisor that is zero when it is parsed on
its own, and no divisor that is zero ends before it.  It comes if a divisor that is zero
ends before the first impossible token, or if there is no such token. -/
theorem Expr.divisionByZero_of_parse (text : String) :
    (∀ e remainder, parse text = .error e → e.cause = .divisionByZero remainder →
      ∃ front operand rest before inside after,
        ZeroDivisor (visibleTokens text) front operand rest ∧
        e.spans = [extent operand] ∧ Covers text (extent operand) before inside after ∧
        BehindDivision before ∧ ZeroOperand (String.ofList inside) ∧
        ∀ front' operand' rest', ZeroDivisor (visibleTokens text) front' operand' rest' →
          rest'.length ≤ rest.length) ∧
    ∀ front operand rest, ZeroDivisor (visibleTokens text) front operand rest →
      (∀ k, FirstImpossible (visibleTokens text) k →
        front.length + 1 + operand.length ≤ k) →
      ∃ e remainder, parse text = .error e ∧ e.cause = .divisionByZero remainder := by
  constructor
  · intro e remainder hparse hcause
    rcases Parser.stops_of_full hparse with hblamed | ⟨hother, -⟩
    · obtain ⟨sign, operand, rest, t, hcleared, hsign, ht, hzero, rfl⟩ := hblamed
      obtain ⟨front, xs, ys, zs, htext, htokens, hxs, hys, hcovers⟩ := hcleared.covers ht
      obtain ⟨hoperand, hzeroOperand⟩ := parse_of_operand htokens hys ht hzero
      rw [List.append_assoc] at htokens
      exact ⟨front, operand, rest, _, _, _, ⟨sign, t, htext, hsign, ht, hzero⟩, rfl, hcovers,
        behindDivision_of_tokens htokens hxs hsign, ⟨⟨t, hoperand⟩, hzeroOperand⟩,
        fun front' operand' rest' h => h.length_le hcleared ht (by rw [hzero]; rfl)⟩
    · exact absurd hcause (hother remainder)
  · intro front operand rest hdivisor hbefore
    obtain ⟨sign, t, htext, hsign, ht, hzero⟩ := hdivisor
    cases hparse : parse text with
    | ok e =>
      obtain ⟨u, hu, -, hvalue⟩ := denotes_of_parse hparse
      exact absurd hzero ((hu.cleared hvalue).harmless htext (by simp) hsign t rest ht)
    | error e =>
      rcases Parser.stops_of_full hparse with hblamed | ⟨-, front', rest', htext', hfirst, hcleared⟩
      · obtain ⟨-, operand', -, -, -, -, -, -, rfl⟩ := hblamed
        exact ⟨_, _, rfl, rfl⟩
      · have hle := hbefore _ hfirst
        have hlength := congrArg List.length (htext'.symm.trans htext)
        simp only [List.length_append, List.length_cons] at hlength
        have hrest : rest'.length ≤ (operand ++ rest).length := by
          rw [List.length_append]
          omega
        exact absurd hzero (hcleared.harmless htext hrest hsign t rest ht)

theorem Expr.divisionByZero_of_parse_zero_difference :
    parse "8 ÷ (3 - 3) )" = .error (.about ⟨5, 12⟩ (.divisionByZero "(3 - 3) )")) ∧
      (∃ front operand rest, ZeroDivisor (visibleTokens "8 ÷ (3 - 3) )") front operand rest ∧
        extent operand = ⟨5, 12⟩) ∧
      ∃ e remainder, parse "8 ÷ (3 - 3) )" = .error e ∧
        e.cause = .divisionByZero remainder := by
  have herror : parse "8 ÷ (3 - 3) )" =
      .error (.about ⟨5, 12⟩ (.divisionByZero "(3 - 3) )")) := by
    decide +kernel
  have htokens : visibleTokens "8 ÷ (3 - 3) )" =
      [⟨.int, "8", 0, 1⟩] ++ ⟨.div, "÷", 2, 4⟩ :: ([⟨.openParen, "(", 5, 6⟩,
        ⟨.int, "3", 6, 7⟩, ⟨.sub, "-", 8, 9⟩, ⟨.int, "3", 10, 11⟩,
        ⟨.closeParen, ")", 11, 12⟩] ++ [⟨.closeParen, ")", 13, 14⟩]) := by
    decide +kernel
  obtain ⟨hfirst, hlast⟩ := Expr.divisionByZero_of_parse "8 ÷ (3 - 3) )"
  obtain ⟨front, operand, rest, -, -, -, hdivisor, hspans, -⟩ := hfirst _ _ herror rfl
  refine ⟨herror, ⟨front, operand, rest, hdivisor, (List.cons.inj hspans).1.symm⟩, ?_⟩
  refine hlast _ _ _ ⟨_, _, htokens, rfl, .paren rfl (.sum (.product (.int rfl) .stop)
    (.more rfl (.product (.int rfl) .stop) .stop)) rfl, ?_⟩ fun k hk => ?_
  · decide +kernel
  · have hafter : Place.start.after [⟨.int, "8", 0, 1⟩, ⟨.div, "÷", 2, 4⟩,
        ⟨.openParen, "(", 5, 6⟩, ⟨.int, "3", 6, 7⟩, ⟨.sub, "-", 8, 9⟩, ⟨.int, "3", 10, 11⟩,
        ⟨.closeParen, ")", 11, 12⟩] = some ⟨[], .sign⟩ := rfl
    have hstep : (Place.mk [] .sign).step ⟨.closeParen, ")", 13, 14⟩ = none := rfl
    have himpossible : FirstImpossible (visibleTokens "8 ÷ (3 - 3) )") 7 := by
      rw [htokens]
      exact .of_step hafter hstep
    rw [hk.unique himpossible]
    decide

end TwentyFour
