import TwentyFour.Expr.Parser

/-!
# The readers, one token at a time

The six functions that read an expression carry proofs that they end.  Here they
are without them, as equations about what they give if they succeed.

* `Step.result?` forgets errors and what is known about the remaining tokens.
* `result?_sum` and the five equations beside it say which token each reader
  looks at and which reader comes next.
* `items_next`, `exists_next` and their neighbours say what taking, giving back
  and looking at one token does to the tokens still to come.
-/

namespace TwentyFour

/-- What a step gives if it succeeds. -/
def Step.result? {limit : Nat} {α : Type} : Step limit α → Option (α × Parser)
  | .done a rest _ => some (a, rest)
  | .fail _ _ => none

@[simp] theorem Step.result?_done {limit : Nat} {α : Type} (a : α) (rest : Parser)
    (h : rest.tokens.size < limit) :
    (Step.done a rest h).result? = some (a, rest) := rfl

@[simp] theorem Step.result?_weaken {m n : Nat} {α : Type} (h : m ≤ n)
    (step : Step m α) : (step.weaken h).result? = step.result? := by
  cases step <;> rfl

theorem Step.size_lt {limit : Nat} {α : Type} {step : Step limit α} {a : α}
    {rest : Parser} (h : step.result? = some (a, rest)) : rest.size < limit := by
  cases step with
  | done a' rest' hshorter =>
    obtain ⟨rfl, rfl⟩ := Prod.mk.inj (Option.some.inj h)
    exact hshorter
  | fail error rest' => simp [result?] at h

namespace Parser

/-- The tokens still to come. -/
def items (p : Parser) : List Token :=
  p.tokens.items

/-! ## One equation for each reader -/

theorem result?_sum (p : Parser) :
    p.sum.result? =
      match p.skipPlus with
      | (.ok (), rest) =>
        rest.product.result?.bind fun r => (sumAfter r.1.1 r.2).result?
      | _ => none := by
  rw [sum]
  split
  next hskip => simp only [hskip]; rfl
  next rest hskip =>
    simp only [hskip]
    cases rest.product with
    | fail error after => rfl
    | done r after hshorter => exact Step.result?_weaken _ _

theorem result?_sumAfter (e : Expr) (p : Parser) :
    (sumAfter e p).result? =
      match p.next with
      | (.error _, _) => none
      | (.ok none, rest) => some (e, rest)
      | (.ok (some tok), rest) =>
        match tok.kind.direction? .additive with
        | some reverse =>
          rest.product.result?.bind fun r =>
            (sumAfter (e.join .additive r.1.1 reverse) r.2).result?
        | none =>
          if tok.kind = .int || tok.kind = .openParen then none
          else some (e, rest.pushBack tok) := by
  rw [sumAfter]
  split
  next hnext => simp only [hnext]; rfl
  next hnext => simp only [hnext]; rfl
  next tok rest hnext =>
    simp only [hnext]
    cases tok.kind.direction? .additive with
    | some reverse =>
      cases rest.product with
      | fail error after => rfl
      | done r after hshorter => exact Step.result?_weaken _ _
    | none =>
      dsimp only
      split <;> rfl

theorem result?_product (p : Parser) :
    p.product.result? =
      p.operand.result?.bind fun r => (productAfter r.1.1 r.1.2 r.2).result? := by
  rw [product]
  cases p.operand with
  | fail error after => rfl
  | done r after hshorter => exact Step.result?_weaken _ _

theorem result?_productAfter (e : Expr) (span : Span) (p : Parser) :
    (productAfter e span p).result? =
      match p.next with
      | (.error _, _) => none
      | (.ok none, rest) => some ((e, span), rest)
      | (.ok (some tok), rest) =>
        match tok.kind.direction? .multiplicative with
        | some reverse =>
          rest.operand.result?.bind fun r =>
            if (e.join .multiplicative r.1.1 reverse).value.isNone then none
            else
              (productAfter (e.join .multiplicative r.1.1 reverse)
                ⟨span.start, r.1.2.stop⟩ r.2).result?
        | none => some ((e, span), rest.pushBack tok) := by
  rw [productAfter]
  split
  next hnext => simp only [hnext]; rfl
  next hnext => simp only [hnext]; rfl
  next tok rest hnext =>
    simp only [hnext]
    cases tok.kind.direction? .multiplicative with
    | some reverse =>
      cases rest.operand with
      | fail error after => rfl
      | done r after hshorter =>
        dsimp only [Step.result?_done, Option.bind_some]
        split
        · rfl
        · exact Step.result?_weaken _ _
    | none => rfl

theorem result?_operand (p : Parser) :
    p.operand.result? =
      match p.next with
      | (.ok (some tok), rest) =>
        match tok.kind with
        | .int =>
          match Integer.read tok.lexeme with
          | .ok n => some ((.number n, tok.span), rest)
          | .error _ => none
        | .openParen => (paren tok rest).result?
        | _ => none
      | _ => none := by
  rw [operand]
  split
  next hnext => simp only [hnext]; rfl
  next hnext => simp only [hnext]; rfl
  next tok rest hnext =>
    simp only [hnext]
    cases tok.kind with
    | int =>
      dsimp only
      cases Integer.read tok.lexeme <;> rfl
    | openParen => exact Step.result?_weaken _ _
    | closeParen =>
      dsimp only
      split <;> rfl
    | blank | add | sub | mul | div | symbol => rfl

theorem result?_paren (opening : Token) (p : Parser) :
    (paren opening p).result? =
      match p.peek with
      | (.ok ahead, rest) =>
        if (ahead.filter (·.kind = .closeParen)).isSome then none
        else
          rest.enter.sum.result?.bind fun r =>
            match r.2.leave.next with
            | (.ok (some tok), final) =>
              if tok.kind = .closeParen then
                some ((r.1, ⟨opening.span.start, tok.span.stop⟩), final)
              else none
            | _ => none
      | _ => none := by
  rw [paren]
  split
  next hpeek => simp only [hpeek]; rfl
  next ahead rest hpeek =>
    simp only [hpeek]
    split
    next closing hclosing =>
      rw [hclosing]
      rfl
    next hnone =>
      simp only [hnone, Option.isSome_none, Bool.false_eq_true, if_false]
      cases rest.enter.sum with
      | fail error after => rfl
      | done e after hshorter =>
        dsimp only [Step.result?_done, Option.bind_some]
        split
        next hnext => simp only [hnext]; rfl
        next hnext => simp only [hnext]; rfl
        next tok final hnext =>
          simp only [hnext]
          split <;> rfl

/-- What has happened if parentheses have been read. -/
theorem paren_eq_some {opening : Token} {p rest : Parser} {e : Expr} {span : Span}
    (h : (paren opening p).result? = some ((e, span), rest)) :
    ∃ ahead q after closing, p.peek = (.ok ahead, q) ∧
      q.enter.sum.result? = some (e, after) ∧
      after.leave.next = (.ok (some closing), rest) ∧ closing.kind = .closeParen ∧
      span = ⟨opening.span.start, closing.span.stop⟩ := by
  rw [result?_paren] at h
  rcases hpeek : p.peek with ⟨_ | ahead, q⟩
  · simp [hpeek] at h
  rw [hpeek] at h
  dsimp only at h
  split at h
  · simp at h
  obtain ⟨⟨first, after⟩, hsum, hclose⟩ := Option.bind_eq_some_iff.1 h
  rcases hnext : after.leave.next with ⟨_ | _ | closing, final⟩
  · simp [hnext] at hclose
  · simp [hnext] at hclose
  rw [hnext] at hclose
  dsimp only at hclose
  split at hclose
  next hclosing =>
    obtain ⟨heq, rfl⟩ := Prod.mk.inj (Option.some.inj hclose)
    obtain ⟨rfl, rfl⟩ := Prod.mk.inj heq
    exact ⟨ahead, q, after, closing, rfl, hsum, hnext, hclosing, rfl⟩
  · simp at hclose

/-! ## One token -/

theorem items_next {p rest : Parser} {tok : Token}
    (h : p.next = (.ok (some tok), rest)) : p.items = tok :: rest.items :=
  (TokenStream.next_ok_some (next_eq h).1).1

theorem items_pushBack {p rest : Parser} {tok : Token}
    (h : p.next = (.ok (some tok), rest)) : (rest.pushBack tok).items = p.items := by
  rw [items_next h]
  exact TokenStream.items_pushBack (TokenStream.next_ok_some (next_eq h).1).2 tok

theorem items_next_none {p rest : Parser} (h : p.next = (.ok none, rest)) :
    p.items = [] ∧ rest.items = [] := by
  have htokens := (next_eq h).1
  have hp : p.items = [] := (TokenStream.next_ok_none htokens).1
  exact ⟨hp, (TokenStream.items_next_ok_none htokens).trans hp⟩

theorem next_of_tokens_next {p : Parser} {outcome : Except Error (Option Token)}
    {tokens : TokenStream} (h : p.tokens.next = (outcome, tokens)) :
    p.next = (outcome, { p with tokens }) := by
  rw [next, h]

/-- Taking a token fails only at a character that cannot start one. -/
theorem symbol_of_next {p rest : Parser} {e : Error} (h : p.next = (.error e, rest)) :
    ∃ tok ts, p.items = tok :: ts ∧ tok.kind = .symbol ∧ e = p.tokens.invalid tok := by
  have htokens := (next_eq h).1
  rcases p.tokens.next_cases with ⟨tok, -, hnext⟩ | ⟨-, -, hnext⟩ |
      ⟨tok, ts, -, hitems, hkind, hnext⟩ | ⟨tok, ts, -, -, -, hnext⟩ <;> rw [hnext] at htokens
  · simp at htokens
  · simp at htokens
  · exact ⟨tok, _, hitems, hkind, (Except.error.inj (Prod.mk.inj htokens).1).symm⟩
  · simp at htokens

theorem exists_next {p : Parser} {tok : Token} {ts : List Token}
    (h : p.items = tok :: ts) (hkind : tok.kind ≠ .symbol) :
    ∃ rest, p.next = (.ok (some tok), rest) ∧ rest.items = ts := by
  have htaken : ∃ rest, p.next = (.ok (some tok), rest) := by
    rcases p.tokens.next_cases with ⟨held, hheld, hnext⟩ | ⟨-, hitems, -⟩ |
        ⟨seen, us, -, hitems, hsymbol, -⟩ | ⟨seen, us, -, hitems, -, hnext⟩
    · have hitems : p.items = held :: visible p.tokens.unread := by
        rw [items, TokenStream.items, hheld]
        rfl
      obtain rfl := (List.cons.inj (hitems.symm.trans h)).1
      exact ⟨_, next_of_tokens_next hnext⟩
    · exact absurd (hitems.symm.trans h) (by simp)
    · obtain rfl := (List.cons.inj (hitems.symm.trans h)).1
      exact absurd hsymbol hkind
    · obtain rfl := (List.cons.inj (hitems.symm.trans h)).1
      exact ⟨_, next_of_tokens_next hnext⟩
  obtain ⟨rest, hnext⟩ := htaken
  rw [items_next hnext] at h
  exact ⟨rest, hnext, (List.cons.inj h).2⟩

theorem exists_next_of_items_nil {p : Parser} (h : p.items = []) :
    ∃ rest, p.next = (.ok none, rest) := by
  rcases p.tokens.next_cases with ⟨held, hheld, -⟩ | ⟨-, -, hnext⟩ | ⟨tok, ts, -, hitems, -⟩ |
      ⟨tok, ts, -, hitems, -⟩
  · rw [items, TokenStream.items, hheld] at h
    simp at h
  · exact ⟨_, next_of_tokens_next hnext⟩
  · exact absurd (hitems.symm.trans h) (by simp)
  · exact absurd (hitems.symm.trans h) (by simp)

theorem items_peek {p rest : Parser} {ahead : Option Token}
    (h : p.peek = (.ok ahead, rest)) : rest.items = p.items := by
  have hpeek := (peek_eq h).1
  unfold TokenStream.peek at hpeek
  split at hpeek
  next tok final hnext =>
    obtain ⟨-, hfinal⟩ := Prod.mk.inj hpeek
    rw [items, ← hfinal, TokenStream.items_pushBack (TokenStream.next_ok_some hnext).2]
    exact (TokenStream.next_ok_some hnext).1.symm
  next hne =>
    cases ahead with
    | none => exact TokenStream.items_next_ok_none hpeek
    | some tok => exact absurd hpeek (hne tok rest.tokens)

theorem exists_peek {p : Parser} {tok : Token} {ts : List Token}
    (h : p.items = tok :: ts) (hkind : tok.kind ≠ .symbol) :
    ∃ rest, p.peek = (.ok (some tok), rest) := by
  obtain ⟨rest, hnext, -⟩ := exists_next h hkind
  refine ⟨rest.pushBack tok, ?_⟩
  have htokens := next_eq hnext
  rw [peek, TokenStream.peek, htokens.1]
  rw [pushBack, htokens.2]

theorem items_skipPlus {p rest : Parser} (h : p.skipPlus = (.ok (), rest)) :
    (∃ sign, sign.kind = .add ∧ p.items = sign :: rest.items) ∨
      rest.items = p.items := by
  unfold skipPlus at h
  split at h
  · simp at h
  next hnext =>
    obtain ⟨-, rfl⟩ := Prod.mk.inj h
    obtain ⟨hp, hrest⟩ := items_next_none hnext
    exact .inr (hrest.trans hp.symm)
  next sign after hnext =>
    obtain ⟨-, rfl⟩ := Prod.mk.inj h
    by_cases hadd : sign.kind = .add
    · rw [if_pos hadd]
      exact .inl ⟨sign, hadd, items_next hnext⟩
    · rw [if_neg hadd]
      exact .inr (items_pushBack hnext)

end Parser

end TwentyFour
