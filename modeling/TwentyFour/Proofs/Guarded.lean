import TwentyFour.Proofs.Cursors
import TwentyFour.Proofs.SyntaxErrors

/-!
# Reading keeps its rules

The readers rely on rules that they do not check: a token is given back only if no other one
is waiting, a parenthesis is left only if one is open, none is open any more at the end, and
a run of digits is a number.  Here they are again with all of this checked, and with a bound
on the depth of their calls.

* `Guarded` is reading that stops at the first `Fault`.  `Guarded.sum` and the five readers
  beside it are those of `Parser`, on top of primitives that check their rules.
* `Agrees` says that a guarded reader does what the reader does, without a fault, and keeps
  the invariant of the tokens.  `agrees_sum` and the five theorems beside it show it, by
  recursion along the readers, with the invariants of where a parser is.
* The last section puts this together for whole texts.
-/

namespace TwentyFour

/-- A rule that reading breaks. -/
inductive Fault where
  /-- A token is given back while another one is waiting. -/
  | overwritten
  /-- A parenthesis is left while none is open. -/
  | belowZero
  /-- The end is looked for while a parenthesis is open. -/
  | stillOpen
  /-- A run of digits is not a number. -/
  | noNumber
  /-- The calls are nested deeper than allowed. -/
  | exhausted
deriving DecidableEq, Repr

/-- Reading that stops at the first fault.  An error in the text is an outcome, not a
fault. -/
def Guarded (α : Type) : Type :=
  Parser → Except Fault (Except Error α × Parser)

namespace Guarded

/-- Goes on with what was read, unless there was an error or a fault. -/
def andThen {α β : Type} (x : Guarded α) (f : α → Guarded β) : Guarded β :=
  fun p =>
    match x p with
    | .error fault => .error fault
    | .ok (.error e, q) => .ok (.error e, q)
    | .ok (.ok a, q) => f a q

instance : Monad Guarded where
  pure a := fun p => .ok (.ok a, p)
  bind := andThen

/-! ## Primitives -/

/-- Stops. -/
def stop {α : Type} (fault : Fault) : Guarded α :=
  fun _ => .error fault

/-- Reports an error in the text. -/
def fail {α : Type} (report : Parser → Error) : Guarded α :=
  fun p => .ok (.error (report p), p)

/-- Takes the next token. -/
def next : Guarded (Option Token) :=
  fun p => .ok p.next

/-- Gives back the token that was taken last.  There is room for one token only. -/
def pushBack (t : Token) : Guarded Unit :=
  fun p => if p.tokens.buffer.isSome then .error .overwritten else .ok (.ok (), p.pushBack t)

/-- Looks at the next token. -/
def peek : Guarded (Option Token) := do
  match ← next with
  | some t =>
    pushBack t
    return some t
  | none => return none

/-- Enters a parenthesis. -/
def enter : Guarded Unit :=
  fun p => .ok (.ok (), p.enter)

/-- Leaves a parenthesis. -/
def leave : Guarded Unit :=
  fun p => if p.depth = 0 then .error .belowZero else .ok (.ok (), p.leave)

/-- Checks that no parenthesis is open. -/
def closed : Guarded Unit :=
  fun p => if p.depth = 0 then .ok (.ok (), p) else .error .stillOpen

/-- The number that a run of digits denotes. -/
def number (t : Token) : Guarded Int :=
  match Integer.read t.lexeme with
  | .ok n => pure n
  | .error _ => stop .noNumber

/-- Takes a `+` if it comes next. -/
def skipPlus : Guarded Unit := do
  match ← next with
  | some t => if t.kind = .add then pure () else pushBack t
  | none => pure ()

/-! ## Readers -/

mutual

/-- Reads a sum. -/
def sum : Nat → Guarded Expr
  | 0 => stop .exhausted
  | fuel + 1 => do
    skipPlus
    let (e, _) ← product fuel
    sumAfter fuel e

/-- Reads the rest of a sum that is `e` so far. -/
def sumAfter : Nat → Expr → Guarded Expr
  | 0, _ => stop .exhausted
  | fuel + 1, e => do
    match ← next with
    | none => return e
    | some t =>
      match t.kind.direction? .additive with
      | some reverse =>
        let (rhs, _) ← product fuel
        sumAfter fuel (e.join .additive rhs reverse)
      | none =>
        if t.kind = .int || t.kind = .openParen then
          fail fun p => .about t.span (.missingOperator (p.remainder t.span))
        else
          pushBack t
          return e

/-- Reads a product, and the span of it. -/
def product : Nat → Guarded (Expr × Span)
  | 0 => stop .exhausted
  | fuel + 1 => do
    let (e, span) ← operand fuel
    productAfter fuel e span

/-- Reads the rest of a product that is `e` so far. -/
def productAfter : Nat → Expr → Span → Guarded (Expr × Span)
  | 0, _, _ => stop .exhausted
  | fuel + 1, e, span => do
    match ← next with
    | none => return (e, span)
    | some t =>
      match t.kind.direction? .multiplicative with
      | some reverse =>
        let (rhs, divisor) ← operand fuel
        let joined := e.join .multiplicative rhs reverse
        if joined.value.isNone then
          fail fun p => .about divisor (.divisionByZero (p.remainder divisor))
        else
          productAfter fuel joined ⟨span.start, divisor.stop⟩
      | none =>
        pushBack t
        return (e, span)

/-- Reads a number or a sum in parentheses, and the span of it. -/
def operand : Nat → Guarded (Expr × Span)
  | 0 => stop .exhausted
  | fuel + 1 => do
    match ← next with
    | none => fail fun p => .about p.tokens.endSpan (.missingOperand "")
    | some t =>
      match t.kind with
      | .int =>
        let n ← number t
        return (.number n, t.span)
      | .openParen => paren fuel t
      | kind =>
        fail fun p =>
          if kind = .closeParen && p.depth = 0 then
            .about t.span (.unclosedParenthesis false (p.remainder t.span))
          else
            .about t.span (.missingOperand (p.remainder t.span))

/-- Reads the rest of a sum in parentheses, behind the opening one. -/
def paren : Nat → Token → Guarded (Expr × Span)
  | 0, _ => stop .exhausted
  | fuel + 1, opening => do
    let ahead ← peek
    match ahead.filter (·.kind = .closeParen) with
    | some closing =>
      fail fun p => .about ⟨opening.span.start, closing.span.stop⟩
        (.emptyParenthesis (p.remainder opening.span))
    | none =>
      enter
      let e ← sum fuel
      leave
      match ← next with
      | none => fail fun p => p.unclosed opening
      | some t =>
        if t.kind = .closeParen then
          return (e, ⟨opening.span.start, t.span.stop⟩)
        else
          fail fun p => p.unclosed opening

end

/-- Reads all of a text as one sum. -/
def full (fuel : Nat) : Guarded Expr := do
  let e ← sum fuel
  closed
  match ← next with
  | none => return e
  | some t => fail fun p => .about t.span (.unclosedParenthesis false (p.remainder t.span))

/-! ## What the primitives do -/

section Primitives

variable {α β : Type} {x : Guarded α} {f : α → Guarded β} {p q : Parser} {a : α} {e : Error}
  {t : Token}

theorem bind_done (h : x p = .ok (.ok a, q)) : (x >>= f) p = f a q := by
  change andThen x f p = f a q
  rw [andThen, h]

theorem bind_fail (h : x p = .ok (.error e, q)) : (x >>= f) p = .ok (.error e, q) := by
  change andThen x f p = .ok (.error e, q)
  rw [andThen, h]

/-- What was just taken can be given back. -/
theorem pushBack_of_next (h : p.next = (.ok (some t), q)) :
    pushBack t q = .ok (.ok (), q.pushBack t) := by
  have hbuffer := (TokenStream.next_ok_some (Parser.next_eq h).1).2
  rw [pushBack, hbuffer]
  rfl

theorem next_eq {outcome : Except Error (Option Token)} (h : p.next = (outcome, q)) :
    next p = .ok (outcome, q) :=
  congrArg Except.ok h

/-- Looking at a token never breaks a rule. -/
theorem peek_eq (p : Parser) : peek p = .ok p.peek := by
  rcases hpeek : p.peek with ⟨outcome, q⟩
  rcases Parser.peek_cases hpeek with ⟨t, r, rfl, hnext, rfl⟩ | ⟨hnone, hnext⟩
  · rw [peek, bind_done (next_eq hnext)]
    exact bind_done (pushBack_of_next hnext)
  · rcases outcome with e | _ | t
    · exact bind_fail (next_eq hnext)
    · exact bind_done (next_eq hnext)
    · exact absurd rfl (hnone t)

/-- Neither does taking a sign. -/
theorem skipPlus_eq (p : Parser) : skipPlus p = .ok p.skipPlus := by
  rw [Parser.skipPlus]
  rcases hnext : p.next with ⟨e | _ | t, q⟩
  · exact bind_fail (next_eq hnext)
  · exact bind_done (next_eq hnext)
  · rw [skipPlus, bind_done (next_eq hnext)]
    dsimp only
    split
    · rfl
    · exact pushBack_of_next hnext

theorem leave_eq (h : p.depth ≠ 0) : leave p = .ok (.ok (), p.leave) :=
  if_neg h

end Primitives

/-! ## The invariant of the tokens -/

section Tokens

variable {text : String} {p q : Parser} {t : Token}

theorem follows_of_next {outcome : Except Error (Option Token)}
    (hp : p.tokens.Follows text none) (h : p.next = (outcome, q)) :
    q.tokens.Follows text (Answer.token? outcome) := by
  have hnext := (TokenStream.follows_next hp).2
  rw [(Parser.next_eq h).1] at hnext
  exact hnext

theorem follows_of_pushBack (hp : p.tokens.Follows text none)
    (h : p.next = (.ok (some t), q)) : (q.pushBack t).tokens.Follows text none :=
  (TokenStream.follows_pushBack (follows_of_next hp h)).2

theorem follows_of_peek {outcome : Except Error (Option Token)}
    (hp : p.tokens.Follows text none) (h : p.peek = (outcome, q)) :
    q.tokens.Follows text none := by
  have hpeek := (TokenStream.follows_peek hp).2
  rw [(Parser.peek_eq h).1] at hpeek
  exact hpeek

theorem follows_of_skipPlus {outcome : Except Error Unit}
    (hp : p.tokens.Follows text none) (h : p.skipPlus = (outcome, q)) :
    q.tokens.Follows text none := by
  rw [Parser.skipPlus] at h
  split at h
  next hnext =>
    rw [← (Prod.mk.inj h).2]
    exact follows_of_next hp hnext
  next hnext =>
    rw [← (Prod.mk.inj h).2]
    exact follows_of_next hp hnext
  next hnext =>
    rw [← (Prod.mk.inj h).2]
    split
    · exact (follows_of_next hp hnext).release
    · exact follows_of_pushBack hp hnext

end Tokens

end Guarded

/-! ## Readers without faults -/

/-- What a step leaves: the result or the error, and the parser. -/
def Step.outcome {limit : Nat} {α : Type} : Step limit α → Except Error α × Parser
  | .done a rest _ => (.ok a, rest)
  | .fail e rest => (.error e, rest)

namespace Guarded

/-- The guarded run has no fault, it has the outcome of the step, and the tokens are still
as they should be. -/
structure Agrees {limit : Nat} {α : Type} (text : String)
    (run : Except Fault (Except Error α × Parser)) (step : Step limit α) : Prop where
  run_eq : run = .ok step.outcome
  follows : step.outcome.2.tokens.Follows text none

theorem Agrees.weaken {text : String} {m n : Nat} {α : Type}
    {run : Except Fault (Except Error α × Parser)}
    {step : Step m α} (h : Agrees text run step) (hle : m ≤ n) :
    Agrees text run (step.weaken hle) := by
  cases step <;> exact ⟨h.run_eq, h.follows⟩

/-- An error of the first part is the outcome of both. -/
theorem Agrees.bind_fail {text : String} {m n : Nat} {α β : Type} {x : Guarded α}
    {f : α → Guarded β} {p q : Parser} {e : Error}
    (h : Agrees text (x p) (.fail e q : Step m α)) :
    Agrees text ((x >>= f) p) (.fail e q : Step n β) :=
  ⟨Guarded.bind_fail h.run_eq, h.follows⟩

section Readers

variable {text : String}

-- The recursion is that of the guarded readers.  The facts about sizes in each proof are
-- for the calls that follow them.
mutual

theorem agrees_sum {opened : List Token} {p : Parser} (fuel : Nat)
    (hp : p.BeforeSum text opened) (hfollows : p.tokens.Follows text none)
    (hfuel : 6 * p.size + 4 < fuel) :
    Agrees text (sum fuel p) p.sum := by
  obtain ⟨fuel, rfl⟩ : ∃ n, fuel = n + 1 := ⟨fuel - 1, by omega⟩
  have hguarded := skipPlus_eq p
  rw [Parser.sum]
  split
  next e rest hskip =>
    rw [hskip] at hguarded
    exact ⟨bind_fail hguarded, follows_of_skipPlus hfollows hskip⟩
  next rest hskip =>
    rw [hskip] at hguarded
    have hsize := Parser.size_skipPlus hskip
    have hbefore := hp.of_skipPlus hskip
    have hproduct := agrees_product fuel hbefore
      (follows_of_skipPlus hfollows hskip) (by omega)
    have hreaches := Parser.reaches_product hbefore
    rw [sum, bind_done hguarded]
    cases hread : rest.product with
    | fail e after =>
      rw [hread] at hproduct
      exact hproduct.bind_fail
    | done r after hshorter =>
      have hlt : after.size < rest.size := hshorter
      rw [hread] at hproduct hreaches
      rw [bind_done hproduct.run_eq]
      exact (agrees_sumAfter fuel r.1 hreaches.1 hproduct.follows (by omega)).weaken _
termination_by fuel

theorem agrees_sumAfter {opened : List Token} {p : Parser} (fuel : Nat) (e : Expr)
    (hp : p.BehindOperand text opened) (hfollows : p.tokens.Follows text none)
    (hfuel : 6 * p.size < fuel) : Agrees text (sumAfter fuel e p) (p.sumAfter e) := by
  obtain ⟨fuel, rfl⟩ : ∃ n, fuel = n + 1 := ⟨fuel - 1, by omega⟩
  rw [Parser.sumAfter]
  split
  next e' rest hnext => exact ⟨bind_fail (next_eq hnext), follows_of_next hfollows hnext⟩
  next rest hnext => exact ⟨bind_done (next_eq hnext), follows_of_next hfollows hnext⟩
  next t rest hnext =>
    have hsize := Parser.size_next hnext
    have hrest := follows_of_next hfollows hnext
    rw [sumAfter, bind_done (next_eq hnext)]
    dsimp only
    cases hdirection : t.kind.direction? .additive with
    | some reverse =>
      have hsign := Kind.isSign_iff.2 ⟨.additive, reverse, hdirection⟩
      have hbefore := hp.sign hnext hsign
      have hproduct := agrees_product fuel hbefore hrest.release (by omega)
      have hreaches := Parser.reaches_product hbefore
      dsimp only
      cases hread : rest.product with
      | fail e' after =>
        rw [hread] at hproduct
        exact hproduct.bind_fail
      | done r after hshorter =>
        have hlt : after.size < rest.size := hshorter
        rw [hread] at hproduct hreaches
        rw [bind_done hproduct.run_eq]
        exact (agrees_sumAfter fuel (e.join .additive r.1 reverse) hreaches.1 hproduct.follows
          (by omega)).weaken _
    | none =>
      dsimp only
      split
      · exact ⟨rfl, hrest.release⟩
      · exact ⟨bind_done (pushBack_of_next hnext), follows_of_pushBack hfollows hnext⟩
termination_by fuel

theorem agrees_product {opened : List Token} {p : Parser} (fuel : Nat)
    (hp : p.BeforeOperand text opened) (hfollows : p.tokens.Follows text none)
    (hfuel : 6 * p.size + 3 < fuel) :
    Agrees text (product fuel p) p.product := by
  obtain ⟨fuel, rfl⟩ : ∃ n, fuel = n + 1 := ⟨fuel - 1, by omega⟩
  have hoperand := agrees_operand fuel hp hfollows (by omega)
  have hreaches := Parser.reaches_operand hp
  rw [product, Parser.product]
  cases hread : p.operand with
  | fail e after =>
    rw [hread] at hoperand
    exact hoperand.bind_fail
  | done r after hshorter =>
    have hlt : after.size < p.size := hshorter
    rw [hread] at hoperand hreaches
    rw [bind_done hoperand.run_eq]
    exact (agrees_productAfter fuel r.1 r.2 hreaches.1 hoperand.follows (by omega)).weaken _
termination_by fuel

theorem agrees_productAfter {opened : List Token} {p : Parser} (fuel : Nat) (e : Expr)
    (span : Span) (hp : p.BehindOperand text opened) (hfollows : p.tokens.Follows text none)
    (hfuel : 6 * p.size < fuel) :
    Agrees text (productAfter fuel e span p) (p.productAfter e span) := by
  obtain ⟨fuel, rfl⟩ : ∃ n, fuel = n + 1 := ⟨fuel - 1, by omega⟩
  rw [Parser.productAfter]
  split
  next e' rest hnext => exact ⟨bind_fail (next_eq hnext), follows_of_next hfollows hnext⟩
  next rest hnext => exact ⟨bind_done (next_eq hnext), follows_of_next hfollows hnext⟩
  next t rest hnext =>
    have hsize := Parser.size_next hnext
    have hrest := follows_of_next hfollows hnext
    rw [productAfter, bind_done (next_eq hnext)]
    dsimp only
    cases hdirection : t.kind.direction? .multiplicative with
    | some reverse =>
      have hsign := Kind.isSign_iff.2 ⟨.multiplicative, reverse, hdirection⟩
      have hbefore := hp.sign hnext hsign
      have hoperand := agrees_operand fuel hbefore hrest.release (by omega)
      have hreaches := Parser.reaches_operand hbefore
      dsimp only
      cases hread : rest.operand with
      | fail e' after =>
        rw [hread] at hoperand
        exact hoperand.bind_fail
      | done r after hshorter =>
        have hlt : after.size < rest.size := hshorter
        rw [hread] at hoperand hreaches
        rw [bind_done hoperand.run_eq]
        dsimp only
        split
        · exact ⟨rfl, hoperand.follows⟩
        · exact (agrees_productAfter fuel _ _ hreaches.1 hoperand.follows (by omega)).weaken _
    | none =>
      exact ⟨bind_done (pushBack_of_next hnext), follows_of_pushBack hfollows hnext⟩
termination_by fuel

theorem agrees_operand {opened : List Token} {p : Parser} (fuel : Nat)
    (hp : p.BeforeOperand text opened) (hfollows : p.tokens.Follows text none)
    (hfuel : 6 * p.size + 2 < fuel) :
    Agrees text (operand fuel p) p.operand := by
  obtain ⟨fuel, rfl⟩ : ∃ n, fuel = n + 1 := ⟨fuel - 1, by omega⟩
  rw [Parser.operand]
  split
  next e rest hnext => exact ⟨bind_fail (next_eq hnext), follows_of_next hfollows hnext⟩
  next rest hnext => exact ⟨bind_done (next_eq hnext), follows_of_next hfollows hnext⟩
  next t rest hnext =>
    have hsize := Parser.size_next hnext
    have hrest := (follows_of_next hfollows hnext).release
    have hmem : t ∈ p.items := by simp [Parser.items_next hnext]
    rw [operand, bind_done (next_eq hnext)]
    dsimp only
    cases hkind : t.kind with
    | int =>
      -- The token is one of the text, and its digits were what the lexer put into it.
      obtain ⟨expects, -, hplace, -⟩ := hp.place
      have hread := lexed_visibleTokens text t (hplace.mem_visibleTokens hmem) hkind
      have hnumber : number t rest = .ok (.ok t.decimal, rest) := by
        rw [number, hread]
        rfl
      dsimp only
      rw [bind_done hnumber, hread]
      exact ⟨rfl, hrest⟩
    | openParen =>
      have hdepth := (Parser.next_eq hnext).2.trans hp.depth
      exact (agrees_paren fuel (hp.openParen hnext hkind) hdepth hrest (by omega)).weaken _
    | closeParen =>
      by_cases hzero : rest.depth = 0
      · simp only [hzero, decide_true, Bool.and_self, if_true]
        exact ⟨by simp [fail, hzero, Step.outcome], hrest⟩
      · simp only [hzero, decide_false, Bool.and_false]
        exact ⟨by simp [fail, hzero, Step.outcome], hrest⟩
    | blank | add | sub | mul | div | symbol =>
      exact ⟨rfl, hrest⟩
termination_by fuel

theorem agrees_paren {opened : List Token} {p : Parser} (fuel : Nat) {opening : Token}
    (hp : p.At text ⟨opening :: opened, .sum⟩) (hdepth : p.depth = opened.length)
    (hfollows : p.tokens.Follows text none) (hfuel : 6 * p.size + 5 < fuel) :
    Agrees text (paren fuel opening p) (p.paren opening) := by
  obtain ⟨fuel, rfl⟩ : ∃ n, fuel = n + 1 := ⟨fuel - 1, by omega⟩
  have hguarded := peek_eq p
  rw [Parser.paren]
  split
  next e rest hpeek =>
    rw [hpeek] at hguarded
    exact ⟨bind_fail hguarded, follows_of_peek hfollows hpeek⟩
  next ahead rest hpeek =>
    rw [hpeek] at hguarded
    have hsize := Parser.size_peek hpeek
    have henter := Parser.size_enter rest
    have hrest := follows_of_peek hfollows hpeek
    rw [paren, bind_done hguarded]
    dsimp only
    cases hnone : ahead.filter fun t => decide (t.kind = .closeParen) with
    | some closing => exact ⟨rfl, hrest⟩
    | none =>
      have hinside := hp.beforeSum hdepth hpeek hnone
      have hsum := agrees_sum fuel hinside hrest (by omega)
      have hreaches := Parser.reaches_sum hinside
      have hentered : enter rest = .ok (.ok (), rest.enter) := rfl
      dsimp only
      rw [bind_done hentered]
      cases hread : rest.enter.sum with
      | fail e after =>
        rw [hread] at hsum
        exact hsum.bind_fail
      | done e after hshorter =>
        rw [hread] at hsum hreaches
        -- The parenthesis that was entered is still open: the sum in it closes only its own.
        have hopen : after.depth ≠ 0 := by
          rw [hreaches.1.depth]
          simp
        have hleft : after.leave.tokens.Follows text none := hsum.follows
        rw [bind_done hsum.run_eq, bind_done (leave_eq hopen)]
        dsimp only
        split
        next e' final hnext =>
          exact ⟨bind_fail (next_eq hnext), follows_of_next hleft hnext⟩
        next final hnext =>
          exact ⟨bind_done (next_eq hnext), follows_of_next hleft hnext⟩
        next t final hnext =>
          have hfinal := (follows_of_next hleft hnext).release
          rw [bind_done (next_eq hnext)]
          dsimp only
          split
          · exact ⟨rfl, hfinal⟩
          · exact ⟨rfl, hfinal⟩
termination_by fuel

end

end Readers

/-- Enough fuel for a text is six times its tokens, and five. -/
theorem agrees_full (text : String) {fuel : Nat}
    (hfuel : 6 * (visibleTokens text).length + 5 ≤ fuel) :
    full fuel (.ofSource text) = .ok (Parser.ofSource text).full ∧
      (Parser.ofSource text).full.2.tokens.Follows text none := by
  have hstart : (Parser.ofSource text).BeforeSum text [] :=
    ⟨Parser.at_ofSource text, rfl, fun hne => absurd rfl hne⟩
  have hsize : (Parser.ofSource text).size = (visibleTokens text).length := rfl
  have hsum := agrees_sum fuel hstart (TokenStream.follows_ofSource text) (by omega)
  have hreaches := Parser.reaches_sum hstart
  rw [full, Parser.full]
  cases hread : (Parser.ofSource text).sum with
  | fail e rest =>
    rw [hread] at hsum
    exact ⟨bind_fail hsum.run_eq, hsum.follows⟩
  | done e rest hshorter =>
    rw [hread] at hsum hreaches
    have hclosed : closed rest = .ok (.ok (), rest) := if_pos hreaches.1.depth
    have hrest : rest.tokens.Follows text none := hsum.follows
    rw [bind_done hsum.run_eq, bind_done hclosed]
    dsimp only
    rcases hnext : rest.next with ⟨_ | _ | t, final⟩
    · exact ⟨bind_fail (next_eq hnext), follows_of_next hrest hnext⟩
    · exact ⟨bind_done (next_eq hnext), follows_of_next hrest hnext⟩
    · exact ⟨bind_done (next_eq hnext), (follows_of_next hrest hnext).release⟩

end Guarded

/-! ## Whole texts -/

namespace Parser

/-- A text that is read is read to its end. -/
theorem ended_of_full {text : String} {e : Expr} {final : Parser}
    (h : (ofSource text).full = (.ok e, final)) :
    final.items = [] ∧ final.tokens.unread = [] := by
  rw [full] at h
  split at h
  · simp at h
  next e' rest hshorter hread =>
    split at h
    · simp at h
    next final' hnext =>
      obtain ⟨-, rfl⟩ := Prod.mk.inj h
      refine ⟨(items_next_none hnext).2, ?_⟩
      rw [(TokenStream.next_ok_none (next_eq hnext).1).2]
    · simp at h

/-- Reading a text ends, and with every rule of reading checked it ends in the same way: no
token is given back while another one waits, no parenthesis is left while none is open, none
is open when the end is looked for, and every run of digits is a number.  No token is ever
lost, and if the text is read, all of its tokens have been taken, each of them once and in
order. -/
theorem full_without_fault (text : String) :
    (∀ fuel, 6 * (visibleTokens text).length + 5 ≤ fuel →
      Guarded.full fuel (ofSource text) = .ok (ofSource text).full) ∧
    (∀ outcome final, (ofSource text).full = (outcome, final) → final.tokens.lost = 0 ∧
      ∃ passed, visibleTokens text = passed ++ final.items ∧
        final.tokens.taken.reverse = passed.filter fun t => t.kind ≠ .symbol) ∧
    ∀ e final, (ofSource text).full = (.ok e, final) →
      final.tokens.taken.reverse = visibleTokens text ∧ final.items = [] ∧
        final.tokens.unread = [] := by
  have hfollows := (Guarded.agrees_full text (le_refl _)).2
  have hpassed : ∃ passed, visibleTokens text = passed ++ (ofSource text).full.2.items ∧
      (ofSource text).full.2.tokens.taken.reverse =
        passed.filter fun t => t.kind ≠ .symbol := by
    obtain ⟨passed, hall, htaken⟩ := hfollows.items_eq
    exact ⟨passed, by simpa [items] using hall, by simpa using htaken⟩
  refine ⟨fun fuel hfuel => (Guarded.agrees_full text hfuel).1, ?_, ?_⟩
  · intro outcome final hfull
    rw [hfull] at hfollows hpassed
    exact ⟨hfollows.lost_eq, hpassed⟩
  · intro e final hfull
    have hparse : Expr.parse text = .ok e := congrArg Prod.fst hfull
    obtain ⟨t, ht, -⟩ := Expr.denotes_of_parse hparse
    obtain ⟨front, hfront, hvalid⟩ := ht.taken
    obtain ⟨hitems, hunread⟩ := ended_of_full hfull
    obtain ⟨passed, hall, htaken⟩ := hpassed
    rw [hfull, hitems, List.append_nil] at hall
    rw [hfull] at htaken
    refine ⟨?_, hitems, hunread⟩
    -- Only symbols are passed without being taken, and a text that is read has none.
    rw [htaken, hall]
    refine List.filter_eq_self.2 fun tok htok => ?_
    rw [hfront, List.append_nil] at hall
    simpa using hvalid tok (hall ▸ htok)

theorem full_without_fault_two_times_seven :
    Guarded.full 47 (ofSource "2 × (3 + 4)") = .ok (ofSource "2 × (3 + 4)").full ∧
      ∃ e final, (ofSource "2 × (3 + 4)").full = (.ok e, final) ∧ e.value = some 14 ∧
        final.tokens.lost = 0 ∧
        final.tokens.taken.reverse.map (·.lexeme) = ["2", "×", "(", "3", "+", "4", ")"] ∧
        final.items = [] := by
  have htokens : (visibleTokens "2 × (3 + 4)").map (·.lexeme) =
      ["2", "×", "(", "3", "+", "4", ")"] := by decide +kernel
  have hlength : (visibleTokens "2 × (3 + 4)").length = 7 := by decide +kernel
  have hvalue : (Expr.parse "2 × (3 + 4)").map Expr.value = .ok (some 14) := by decide +kernel
  obtain ⟨hguarded, hlost, htaken⟩ := full_without_fault "2 × (3 + 4)"
  rcases hfull : (ofSource "2 × (3 + 4)").full with ⟨e | e, final⟩
  · simp [Expr.parse, hfull, Except.map] at hvalue
  · obtain ⟨hreverse, hitems, -⟩ := htaken e final hfull
    have he : e.value = some 14 := by simpa [Expr.parse, hfull, Except.map] using hvalue
    exact ⟨hfull ▸ hguarded 47 (by omega), e, final, rfl, he, (hlost _ final hfull).1,
      by rw [hreverse, htokens], hitems⟩

end Parser

end TwentyFour
