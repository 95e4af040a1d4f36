import TwentyFour.Proofs.Fronts
import TwentyFour.Proofs.Readers

/-!
# Where reading fails

A text that is not read fails at its first impossible token, with the error that the
table of syntax errors has for it, or at a division by zero.

* `Reported` is the table: which error stands for which token, or for the end.
* `Parser.At` is the invariant of the readers.  They are at a `Place` of the text, and
  know from the token they look at whether they can go on.
* `At.misplaced_of_next` and its neighbours are about taking and looking at one token.
* `Parser.BeforeSum`, `Parser.BeforeOperand` and `Parser.BehindOperand` are the three
  states between which the readers go, and `reaches_sum` and the five theorems beside
  say so, by recursion along the readers.
* `Expr.reported_of_parse` puts this together for whole texts.
-/

namespace TwentyFour

/-- The error of the table for tokens whose front is possible while what follows is not.
The first token that follows decides, or the end. -/
inductive Reported (text : String) (front : List Token) : List Token → Error → Prop where
  | invalidCharacter {tok : Token} {rest : List Token} (hkind : tok.kind = .symbol) :
      Reported text front (tok :: rest) (.about tok.span
        (.invalidCharacter (TokenStream.firstChar tok) (suffixFrom text tok.span.start)))
  | missingOperator {tok : Token} {rest : List Token}
      (hkind : tok.kind = .int ∨ tok.kind = .openParen) :
      Reported text front (tok :: rest)
        (.about tok.span (.missingOperator (suffixFrom text tok.span.start)))
  | missingOperand {tok : Token} {rest : List Token} (hkind : tok.kind.isSign = true) :
      Reported text front (tok :: rest)
        (.about tok.span (.missingOperand (suffixFrom text tok.span.start)))
  | emptyParenthesis {opening tok : Token} {rest : List Token}
      (hkind : tok.kind = .closeParen) (hlast : front.getLast? = some opening)
      (hopening : opening.kind = .openParen) :
      Reported text front (tok :: rest) (.about ⟨opening.span.start, tok.span.stop⟩
        (.emptyParenthesis (suffixFrom text opening.span.start)))
  | unopened {tok : Token} {rest : List Token} (hkind : tok.kind = .closeParen)
      (hlast : ∀ last ∈ front.getLast?, last.kind ≠ .openParen)
      (hopen : stillOpen front = []) :
      Reported text front (tok :: rest)
        (.about tok.span (.unclosedParenthesis false (suffixFrom text tok.span.start)))
  | unfinished {tok : Token} {rest : List Token} (hkind : tok.kind = .closeParen)
      (hlast : ∀ last ∈ front.getLast?, last.kind ≠ .openParen)
      (hopen : stillOpen front ≠ []) :
      Reported text front (tok :: rest)
        (.about tok.span (.missingOperand (suffixFrom text tok.span.start)))
  | unclosed {opening last : Token} (hlast : front.getLast? = some last)
      (hkind : last.kind = .int ∨ last.kind = .closeParen)
      (hopen : (stillOpen front).head? = some opening) :
      Reported text front []
        (.about opening.span (.unclosedParenthesis true (suffixFrom text opening.span.start)))
  | ended (hlast : ∀ last ∈ front.getLast?, last.kind ≠ .int ∧ last.kind ≠ .closeParen) :
      Reported text front [] (.about
        ⟨byteLength text.toList, byteLength text.toList⟩ (.missingOperand ""))

/-- There is at most one error for a token, or for the end. -/
theorem Reported.unique {text : String} {front rest : List Token} {e e' : Error}
    (h : Reported text front rest e) (h' : Reported text front rest e') : e = e' := by
  cases h <;> cases h' <;> grind [Kind.isSign]

/-- The error is the one for the first impossible token of the text. -/
def Misplaced (text : String) (e : Error) : Prop :=
  ∃ front rest, visibleTokens text = front ++ rest ∧
    FirstImpossible (visibleTokens text) front.length ∧ Reported text front rest e

namespace Parser

/-! ## The place of a parser -/

/-- The parser has read a text up to a place, and has not looked further than to a token
that it could take. -/
structure At (text : String) (place : Place) (p : Parser) : Prop where
  front : ∃ front, visibleTokens text = front ++ p.items ∧
    Place.start.after front = some place
  source : p.tokens.source = text
  buffer : ∀ tok ∈ p.tokens.buffer, tok.kind ≠ .symbol

section At

variable {text : String} {place : Place} {p q : Parser} {tok : Token}

theorem at_ofSource (text : String) : (ofSource text).At text .start :=
  ⟨⟨[], rfl, rfl⟩, rfl, fun tok htok => absurd htok (by simp [ofSource, TokenStream.ofSource])⟩

theorem At.mem_visibleTokens (hp : p.At text place) (htok : tok ∈ p.items) :
    tok ∈ visibleTokens text := by
  obtain ⟨front, hfront, -⟩ := hp.front
  rw [hfront]
  exact List.mem_append_right front htok

theorem At.ne_blank (hp : p.At text place) (htok : tok ∈ p.items) : tok.kind ≠ .blank := by
  have hmem := hp.mem_visibleTokens htok
  simpa using (List.mem_filter.1 hmem).2

theorem At.misplaced {rest : List Token} {e : Error} (hp : p.At text place)
    (hitems : p.items = tok :: rest) (hstep : place.step tok = none)
    (h : ∀ front, place = ⟨stillOpen front, .behind front.getLast?⟩ →
      Reported text front (tok :: rest) e) : Misplaced text e := by
  obtain ⟨front, hfront, hafter⟩ := hp.front
  rw [hitems] at hfront
  refine ⟨front, tok :: rest, hfront, ?_, h front (Place.eq_of_after hafter)⟩
  rw [hfront]
  exact .of_step hafter hstep

theorem At.misplaced_end {e : Error} (hp : p.At text place) (hitems : p.items = [])
    (hplace : place ≠ ⟨[], .sign⟩)
    (h : ∀ front, place = ⟨stillOpen front, .behind front.getLast?⟩ →
      Reported text front [] e) : Misplaced text e := by
  obtain ⟨front, hfront, hafter⟩ := hp.front
  rw [hitems, List.append_nil] at hfront
  refine ⟨front, [], by rw [hfront, List.append_nil], ?_, h front (Place.eq_of_after hafter)⟩
  rw [hfront]
  exact .of_end hafter hplace

/-! ## One token -/

theorem At.misplaced_symbol {rest : List Token} (hp : p.At text place)
    (hitems : p.items = tok :: rest) (hkind : tok.kind = .symbol) :
    Misplaced text (p.tokens.invalid tok) := by
  rw [TokenStream.invalid, TokenStream.remainderFrom, hp.source]
  exact hp.misplaced hitems (place.step_symbol hkind) fun front _ => .invalidCharacter hkind

theorem At.misplaced_of_next {e : Error} (hp : p.At text place)
    (h : p.next = (.error e, q)) : Misplaced text e := by
  obtain ⟨tok, rest, hitems, hkind, rfl⟩ := symbol_of_next h
  exact hp.misplaced_symbol hitems hkind

/-- What is known of a token that was taken. -/
theorem At.of_next (hp : p.At text place) (h : p.next = (.ok (some tok), q)) :
    tok.kind ≠ .symbol ∧ q.tokens.source = text ∧ q.tokens.buffer = none := by
  have htokens := (next_eq h).1
  have hbuffer := (TokenStream.next_ok_some htokens).2
  rcases p.tokens.next_cases with ⟨held, hheld, hnext⟩ | ⟨-, -, hnext⟩ |
      ⟨held, rest, -, -, -, hnext⟩ | ⟨held, rest, -, -, hkind, hnext⟩ <;>
    rw [hnext] at htokens
  · obtain ⟨htok, hq⟩ := Prod.mk.inj htokens
    obtain rfl : held = tok := by simpa using htok
    exact ⟨hp.buffer held hheld, by rw [← hq]; exact hp.source, hbuffer⟩
  · simp at htokens
  · simp at htokens
  · obtain ⟨htok, hq⟩ := Prod.mk.inj htokens
    obtain rfl : held = tok := by simpa using htok
    exact ⟨hkind, by rw [← hq]; exact hp.source, hbuffer⟩

theorem At.step {place' : Place} (hp : p.At text place)
    (h : p.next = (.ok (some tok), q)) (hstep : place.step tok = some place') :
    q.At text place' := by
  obtain ⟨-, hsource, hbuffer⟩ := hp.of_next h
  obtain ⟨front, hfront, hafter⟩ := hp.front
  refine ⟨⟨front ++ [tok], ?_, ?_⟩, hsource, by simp [hbuffer]⟩
  · rw [hfront, items_next h, List.append_assoc, List.singleton_append]
  · rw [Place.after_append, hafter, Option.bind_some, Place.after_cons, hstep]
    rfl

theorem At.pushBack (hp : p.At text place) (h : p.next = (.ok (some tok), q)) :
    (q.pushBack tok).At text place := by
  obtain ⟨hkind, hsource, -⟩ := hp.of_next h
  refine ⟨?_, hsource, ?_⟩
  · rw [items_pushBack h]
    exact hp.front
  · intro held hheld
    obtain rfl : tok = held := Option.some.inj hheld
    exact hkind

theorem At.of_next_none (hp : p.At text place) (h : p.next = (.ok none, q)) :
    q.At text place := by
  have htokens := (TokenStream.next_ok_none (next_eq h).1).2
  refine ⟨?_, by rw [htokens, hp.source], by rw [htokens]; exact hp.buffer⟩
  have hitems : q.items = p.items := TokenStream.items_next_ok_none (next_eq h).1
  rw [hitems]
  exact hp.front

theorem At.enter (hp : p.At text place) : p.enter.At text place :=
  ⟨hp.front, hp.source, hp.buffer⟩

theorem At.leave (hp : p.At text place) : p.leave.At text place :=
  ⟨hp.front, hp.source, hp.buffer⟩

/-- Looking at a token is taking it and giving it back. -/
theorem peek_cases {outcome : Except Error (Option Token)} (h : p.peek = (outcome, q)) :
    (∃ tok r, outcome = .ok (some tok) ∧ p.next = (.ok (some tok), r) ∧
      q = r.pushBack tok) ∨
      ((∀ tok, outcome ≠ .ok (some tok)) ∧ p.next = (outcome, q)) := by
  obtain ⟨hpeek, hdepth⟩ := peek_eq h
  unfold TokenStream.peek at hpeek
  rcases hnext : p.next with ⟨outcome', r⟩
  obtain ⟨htokens, hdepth'⟩ := next_eq hnext
  rw [htokens] at hpeek
  obtain ⟨qtokens, qdepth⟩ := q
  obtain ⟨rtokens, rdepth⟩ := r
  obtain rfl : qdepth = p.depth := hdepth
  obtain rfl : rdepth = p.depth := hdepth'
  rcases outcome' with e | _ | tok
  · obtain ⟨rfl, rfl⟩ := Prod.mk.inj hpeek
    exact .inr ⟨by simp, rfl⟩
  · obtain ⟨rfl, rfl⟩ := Prod.mk.inj hpeek
    exact .inr ⟨by simp, rfl⟩
  · obtain ⟨rfl, rfl⟩ := Prod.mk.inj hpeek
    exact .inl ⟨tok, _, rfl, rfl, rfl⟩

theorem At.misplaced_of_peek {e : Error} (hp : p.At text place)
    (h : p.peek = (.error e, q)) : Misplaced text e := by
  rcases peek_cases h with ⟨tok, r, houtcome, -, -⟩ | ⟨-, hnext⟩
  · simp at houtcome
  · exact hp.misplaced_of_next hnext

theorem At.of_peek {ahead : Option Token} (hp : p.At text place)
    (h : p.peek = (.ok ahead, q)) : q.At text place ∧ ahead = p.items.head? := by
  rcases peek_cases h with ⟨tok, r, houtcome, hnext, rfl⟩ | ⟨hnone, hnext⟩
  · obtain rfl := Except.ok.inj houtcome
    exact ⟨hp.pushBack hnext, by rw [items_next hnext]; rfl⟩
  · cases ahead with
    | none => exact ⟨hp.of_next_none hnext, by rw [(items_next_none hnext).1]; rfl⟩
    | some tok => exact absurd rfl (hnone tok)

end At

/-! ## Three states of a parser -/

/-- A sum comes next.  If it is in parentheses, it has been looked at whether there is
nothing in them. -/
structure BeforeSum (text : String) (opened : List Token) (p : Parser) : Prop where
  place : p.At text ⟨opened, .sum⟩
  depth : p.depth = opened.length
  closing : opened ≠ [] → ∀ tok ∈ p.items.head?, tok.kind ≠ .closeParen

/-- An operand comes next.  If it is the first one of a sum, the sum has no sign in front
of it that could still be taken. -/
structure BeforeOperand (text : String) (opened : List Token) (p : Parser) : Prop where
  place : ∃ expects ≠ .sign, p.At text ⟨opened, expects⟩ ∧
    (expects = .sum → ∀ tok ∈ p.items.head?,
      tok.kind ≠ .add ∧ (opened ≠ [] → tok.kind ≠ .closeParen))
  depth : p.depth = opened.length

/-- An operand has been read. -/
structure BehindOperand (text : String) (opened : List Token) (p : Parser) : Prop where
  place : p.At text ⟨opened, .sign⟩
  depth : p.depth = opened.length

section States

variable {text : String} {opened : List Token} {p q : Parser} {tok : Token}

theorem BehindOperand.sign (hp : p.BehindOperand text opened)
    (h : p.next = (.ok (some tok), q)) (hkind : tok.kind.isSign = true) :
    q.BeforeOperand text opened :=
  ⟨⟨.operand, by simp, hp.place.step h (Place.step_sign hkind), by simp⟩,
    (next_eq h).2.trans hp.depth⟩

theorem BehindOperand.pushBack (hp : p.BehindOperand text opened)
    (h : p.next = (.ok (some tok), q)) : (q.pushBack tok).BehindOperand text opened :=
  ⟨hp.place.pushBack h, (next_eq h).2.trans hp.depth⟩

theorem BehindOperand.of_next_none (hp : p.BehindOperand text opened)
    (h : p.next = (.ok none, q)) : q.BehindOperand text opened :=
  ⟨hp.place.of_next_none h, (next_eq h).2.trans hp.depth⟩

theorem BehindOperand.closeParen {opening : Token}
    (hp : p.BehindOperand text (opening :: opened))
    (h : p.leave.next = (.ok (some tok), q)) (hkind : tok.kind = .closeParen) :
    q.BehindOperand text opened := by
  refine ⟨hp.place.leave.step h (Place.step_closeParen hkind), ?_⟩
  rw [(next_eq h).2, leave, hp.depth, List.length_cons, Nat.add_sub_cancel]

theorem BeforeSum.of_skipPlus (hp : p.BeforeSum text opened)
    (h : p.skipPlus = (.ok (), q)) : q.BeforeOperand text opened := by
  unfold skipPlus at h
  split at h
  · simp at h
  next hnext =>
    obtain ⟨-, rfl⟩ := Prod.mk.inj h
    have hitems := (items_next_none hnext).2
    exact ⟨⟨.sum, by simp, hp.place.of_next_none hnext, by simp [hitems]⟩,
      (next_eq hnext).2.trans hp.depth⟩
  next sign r hnext =>
    obtain ⟨-, rfl⟩ := Prod.mk.inj h
    have hdepth := (next_eq hnext).2.trans hp.depth
    by_cases hadd : sign.kind = .add
    · rw [if_pos hadd]
      exact ⟨⟨.operand, by simp, hp.place.step hnext (Place.step_plus hadd), by simp⟩, hdepth⟩
    · rw [if_neg hadd]
      refine ⟨⟨.sum, by simp, hp.place.pushBack hnext, fun _ tok htok => ?_⟩, hdepth⟩
      rw [items_pushBack hnext] at htok
      refine ⟨?_, fun hopened => hp.closing hopened tok htok⟩
      rw [items_next hnext, List.head?_cons, Option.mem_some_iff] at htok
      rwa [← htok]

theorem misplaced_of_skipPlus {e : Error} (hp : p.BeforeSum text opened)
    (h : p.skipPlus = (.error e, q)) : Misplaced text e := by
  unfold skipPlus at h
  split at h
  next e' r hnext =>
    obtain rfl := Except.error.inj (Prod.mk.inj h).1
    exact hp.place.misplaced_of_next hnext
  · simp at h
  · simp at h

theorem BeforeOperand.misplaced_of_next {e : Error} (hp : p.BeforeOperand text opened)
    (h : p.next = (.error e, q)) : Misplaced text e := by
  obtain ⟨expects, -, hplace, -⟩ := hp.place
  exact hplace.misplaced_of_next h

theorem BeforeOperand.int (hp : p.BeforeOperand text opened)
    (h : p.next = (.ok (some tok), q)) (hkind : tok.kind = .int) :
    q.BehindOperand text opened := by
  obtain ⟨expects, hexpects, hplace, -⟩ := hp.place
  exact ⟨hplace.step h (Place.step_int hexpects hkind), (next_eq h).2.trans hp.depth⟩

theorem BeforeOperand.openParen (hp : p.BeforeOperand text opened)
    (h : p.next = (.ok (some tok), q)) (hkind : tok.kind = .openParen) :
    q.At text ⟨tok :: opened, .sum⟩ := by
  obtain ⟨expects, hexpects, hplace, -⟩ := hp.place
  exact hplace.step h (Place.step_openParen hexpects hkind)

/-! ## The rows of the table -/

/-- With no parenthesis open, the last token is not an opening one. -/
theorem ne_openParen_of_stillOpen {front : List Token} (h : stillOpen front = []) :
    ∀ last ∈ front.getLast?, last.kind ≠ .openParen := by
  intro last hlast hkind
  have hhead := head?_stillOpen hlast hkind
  rw [h] at hhead
  simp at hhead

variable {rest : List Token}

/-- Where an operand comes next, nothing else can be taken. -/
theorem BeforeOperand.step_eq_none (hp : p.BeforeOperand text opened)
    (hitems : p.items = tok :: rest) (hint : tok.kind ≠ .int) (hopen : tok.kind ≠ .openParen) :
    ∃ expects, p.At text ⟨opened, expects⟩ ∧ (Place.mk opened expects).step tok = none ∧
      (expects = .sum → opened ≠ [] → tok.kind ≠ .closeParen) := by
  obtain ⟨expects, hexpects, hplace, hsum⟩ := hp.place
  refine ⟨expects, hplace, ?_, fun heq => (hsum heq tok (by simp [hitems])).2⟩
  cases expects with
  | sum =>
    have hadd := (hsum rfl tok (by simp [hitems])).1
    cases hk : tok.kind <;> simp_all [Place.step]
  | operand => cases hk : tok.kind <;> simp_all [Place.step]
  | sign => exact absurd rfl hexpects

theorem BeforeOperand.misplaced_sign (hp : p.BeforeOperand text opened)
    (hitems : p.items = tok :: rest) (hkind : tok.kind.isSign = true) :
    Misplaced text (.about tok.span (.missingOperand (suffixFrom text tok.span.start))) := by
  obtain ⟨expects, hplace, hstep, -⟩ := hp.step_eq_none hitems
    (fun hk => by simp [hk, Kind.isSign] at hkind) (fun hk => by simp [hk, Kind.isSign] at hkind)
  exact hplace.misplaced hitems hstep fun front _ => .missingOperand hkind

theorem BeforeOperand.misplaced_unopened (hp : p.BeforeOperand text [])
    (hitems : p.items = tok :: rest) (hkind : tok.kind = .closeParen) :
    Misplaced text
      (.about tok.span (.unclosedParenthesis false (suffixFrom text tok.span.start))) := by
  obtain ⟨expects, hplace, hstep, -⟩ :=
    hp.step_eq_none hitems (by simp [hkind]) (by simp [hkind])
  refine hplace.misplaced hitems hstep fun front heq => ?_
  have hopen : stillOpen front = [] := (Place.mk.inj heq).1.symm
  exact .unopened hkind (ne_openParen_of_stillOpen hopen) hopen

theorem BeforeOperand.misplaced_unfinished (hp : p.BeforeOperand text opened)
    (hopened : opened ≠ []) (hitems : p.items = tok :: rest)
    (hkind : tok.kind = .closeParen) :
    Misplaced text (.about tok.span (.missingOperand (suffixFrom text tok.span.start))) := by
  obtain ⟨expects, hplace, hstep, hclosing⟩ :=
    hp.step_eq_none hitems (by simp [hkind]) (by simp [hkind])
  refine hplace.misplaced hitems hstep fun front heq => ?_
  obtain ⟨rfl, rfl⟩ := Place.mk.inj heq
  -- behind an opening parenthesis the closing one has been ruled out
  refine .unfinished hkind (fun last hlast hopening => hclosing ?_ hopened hkind) hopened
  rw [Expect.behind_eq_sum_iff, hlast]
  simpa using hopening

theorem BeforeOperand.misplaced_end (hp : p.BeforeOperand text opened)
    (hitems : p.items = []) :
    Misplaced text (.about ⟨byteLength text.toList, byteLength text.toList⟩
      (.missingOperand "")) := by
  obtain ⟨expects, hexpects, hplace, -⟩ := hp.place
  have hne : Place.mk opened expects ≠ ⟨[], .sign⟩ := fun heq =>
    hexpects (Place.mk.inj heq).2
  refine hplace.misplaced_end hitems hne fun front heq => .ended fun last hlast => ?_
  obtain ⟨-, rfl⟩ := Place.mk.inj heq
  by_contra! hkind
  refine hexpects (Expect.behind_eq_sign_iff.2 ⟨last, hlast, ?_⟩)
  by_cases hint : last.kind = .int
  · exact .inl hint
  · exact .inr (hkind hint)

theorem BehindOperand.misplaced_operand (hp : p.BehindOperand text opened)
    (hitems : p.items = tok :: rest) (hkind : tok.kind = .int ∨ tok.kind = .openParen) :
    Misplaced text (.about tok.span (.missingOperator (suffixFrom text tok.span.start))) := by
  exact hp.place.misplaced hitems (Place.step_operand hkind) fun front _ =>
    .missingOperator hkind

theorem BehindOperand.misplaced_unopened (hp : p.BehindOperand text [])
    (hitems : p.items = tok :: rest) (hkind : tok.kind = .closeParen) :
    Misplaced text
      (.about tok.span (.unclosedParenthesis false (suffixFrom text tok.span.start))) := by
  have hstep : (Place.mk [] .sign).step tok = none := by
    simp [Place.step, hkind]
  refine hp.place.misplaced hitems hstep fun front heq => ?_
  have hopen : stillOpen front = [] := (Place.mk.inj heq).1.symm
  exact .unopened hkind (ne_openParen_of_stillOpen hopen) hopen

theorem BehindOperand.misplaced_end {opening : Token}
    (hp : p.BehindOperand text (opening :: opened)) (hitems : p.items = []) :
    Misplaced text (.about opening.span
      (.unclosedParenthesis true (suffixFrom text opening.span.start))) := by
  refine hp.place.misplaced_end hitems (by simp) fun front heq => ?_
  obtain ⟨hopen, hexpects⟩ := Place.mk.inj heq
  obtain ⟨last, hlast, hkind⟩ := Expect.behind_eq_sign_iff.1 hexpects.symm
  exact .unclosed hlast hkind (by rw [← hopen]; rfl)

theorem At.misplaced_empty {opening : Token} (hp : p.At text ⟨opening :: opened, .sum⟩)
    (hitems : p.items = tok :: rest) (hkind : tok.kind = .closeParen) :
    Misplaced text (.about ⟨opening.span.start, tok.span.stop⟩
      (.emptyParenthesis (suffixFrom text opening.span.start))) := by
  refine hp.misplaced hitems (by simp [Place.step, hkind]) fun front heq => ?_
  obtain ⟨hopen, hexpects⟩ := Place.mk.inj heq
  have hlast := Expect.behind_eq_sum_iff.1 hexpects.symm
  rcases hfront : front.getLast? with _ | last
  · rw [List.getLast?_eq_none_iff.1 hfront] at hopen
    simp [stillOpen] at hopen
  · have hopening := hlast last hfront
    have hhead := head?_stillOpen hfront hopening
    rw [← hopen, List.head?_cons, Option.some.injEq] at hhead
    subst hhead
    exact .emptyParenthesis hkind hfront hopening

/-- Behind an opening parenthesis comes a sum, unless there is nothing in it. -/
theorem At.beforeSum {opening : Token} {ahead : Option Token}
    (hp : p.At text ⟨opening :: opened, .sum⟩) (hdepth : p.depth = opened.length)
    (hpeek : p.peek = (.ok ahead, q))
    (hnone : ahead.filter (fun tok => decide (tok.kind = .closeParen)) = none) :
    q.enter.BeforeSum text (opening :: opened) := by
  obtain ⟨hq, hahead⟩ := hp.of_peek hpeek
  refine ⟨hq.enter, ?_, fun _ tok htok hkind => ?_⟩
  · rw [Parser.enter, (peek_eq hpeek).2, hdepth, List.length_cons]
  · have hpeeked := items_peek hpeek
    have hitems : q.enter.items = p.items := hpeeked
    rw [hitems, ← hahead] at htok
    exact (Option.filter_eq_none_iff.1 hnone) tok htok (by simpa using hkind)

end States

end Parser

/-! ## The readers -/

/-- A failure of reading. -/
def Failed (text : String) (e : Error) : Prop :=
  (∃ remainder, e.cause = .divisionByZero remainder) ∨ Misplaced text e

/-- The step reads an operand or more, with the given parentheses open, up to a token of a
kind that fulfils `ends`, or it fails. -/
def Step.Reaches {limit : Nat} {α : Type} (text : String) (opened : List Token)
    (ends : Kind → Prop) : Step limit α → Prop
  | .done _ rest _ =>
    rest.BehindOperand text opened ∧ ∀ tok ∈ rest.items.head?, ends tok.kind
  | .fail error _ => Failed text error

theorem Step.Reaches.weaken {m n : Nat} {α : Type} {text : String} {opened : List Token}
    {ends : Kind → Prop} {step : Step m α} (h : step.Reaches text opened ends) (hle : m ≤ n) :
    (step.weaken hle).Reaches text opened ends := by
  cases step <;> exact h

namespace Parser

/-- What ends a product. -/
def EndsProduct (k : Kind) : Prop :=
  k.direction? .multiplicative = none

/-- What ends a sum. -/
def EndsSum (k : Kind) : Prop :=
  k = .closeParen

-- The recursion is that of the readers, with their measure.
mutual

theorem reaches_sum {text : String} {opened : List Token} {p : Parser}
    (hp : p.BeforeSum text opened) : p.sum.Reaches text opened EndsSum := by
  rw [sum]
  split
  next hskip => exact .inr (misplaced_of_skipPlus hp hskip)
  next rest hskip =>
    have hsize := size_skipPlus hskip
    have hproduct := reaches_product (hp.of_skipPlus hskip)
    cases hread : rest.product with
    | fail error after =>
      rw [hread] at hproduct
      exact hproduct
    | done r after hshorter =>
      have hlt : after.size < rest.size := hshorter
      rw [hread] at hproduct
      exact (reaches_sumAfter r.1 hproduct.1 hproduct.2).weaken _
termination_by 6 * p.size + 4
decreasing_by all_goals simp only [size] at *; omega

theorem reaches_sumAfter {text : String} {opened : List Token} {p : Parser} (e : Expr)
    (hp : p.BehindOperand text opened)
    (hends : ∀ tok ∈ p.items.head?, EndsProduct tok.kind) :
    (sumAfter e p).Reaches text opened EndsSum := by
  rw [sumAfter]
  split
  next hnext => exact .inr (hp.place.misplaced_of_next hnext)
  next hnext => exact ⟨hp.of_next_none hnext, by simp [(items_next_none hnext).2]⟩
  next tok rest hnext =>
    have hsize := size_next hnext
    have hitems := items_next hnext
    split
    next reverse hdirection =>
      have hsign := Kind.isSign_iff.2 ⟨.additive, reverse, hdirection⟩
      have hproduct := reaches_product (hp.sign hnext hsign)
      cases hread : rest.product with
      | fail error after =>
        rw [hread] at hproduct
        exact hproduct
      | done r after hshorter =>
        have hlt : after.size < rest.size := hshorter
        rw [hread] at hproduct
        exact (reaches_sumAfter (e.join .additive r.1 reverse) hproduct.1 hproduct.2).weaken _
    next hdirection =>
      split
      next hkind =>
        refine .inr ?_
        have hsource := (hp.place.of_next hnext).2.1
        rw [remainder, TokenStream.remainderFrom, hsource]
        exact hp.misplaced_operand hitems (by simpa using hkind)
      next hkind =>
        refine ⟨hp.pushBack hnext, ?_⟩
        rw [items_pushBack hnext, hitems]
        intro tok' htok'
        obtain rfl := Option.mem_some_iff.1 htok'
        have hsymbol := (hp.place.of_next hnext).1
        have hmem : tok ∈ p.items := by simp [hitems]
        have hblank := hp.place.ne_blank hmem
        have hproduct := hends tok (by simp [hitems])
        cases hk : tok.kind <;> simp_all [EndsProduct, EndsSum, Kind.direction?]
termination_by 6 * p.size
decreasing_by all_goals simp only [size] at *; omega

theorem reaches_product {text : String} {opened : List Token} {p : Parser}
    (hp : p.BeforeOperand text opened) : p.product.Reaches text opened EndsProduct := by
  rw [product]
  have hoperand := reaches_operand hp
  cases hread : p.operand with
  | fail error after =>
    rw [hread] at hoperand
    exact hoperand
  | done r after hshorter =>
    have hlt : after.size < p.size := hshorter
    rw [hread] at hoperand
    exact (reaches_productAfter r.1 r.2 hoperand.1).weaken _
termination_by 6 * p.size + 3
decreasing_by all_goals simp only [size] at *; omega

theorem reaches_productAfter {text : String} {opened : List Token} {p : Parser} (e : Expr)
    (span : Span) (hp : p.BehindOperand text opened) :
    (productAfter e span p).Reaches text opened EndsProduct := by
  rw [productAfter]
  split
  next hnext => exact .inr (hp.place.misplaced_of_next hnext)
  next hnext => exact ⟨hp.of_next_none hnext, by simp [(items_next_none hnext).2]⟩
  next tok rest hnext =>
    have hsize := size_next hnext
    split
    next reverse hdirection =>
      have hsign := Kind.isSign_iff.2 ⟨.multiplicative, reverse, hdirection⟩
      have hoperand := reaches_operand (hp.sign hnext hsign)
      cases hread : rest.operand with
      | fail error after =>
        rw [hread] at hoperand
        exact hoperand
      | done r after hshorter =>
        have hlt : after.size < rest.size := hshorter
        rw [hread] at hoperand
        dsimp only
        split
        · exact .inl ⟨_, rfl⟩
        · exact (reaches_productAfter _ _ hoperand.1).weaken _
    next hdirection =>
      refine ⟨hp.pushBack hnext, ?_⟩
      rw [items_pushBack hnext, items_next hnext]
      intro tok' htok'
      obtain rfl := Option.mem_some_iff.1 htok'
      exact hdirection
termination_by 6 * p.size
decreasing_by all_goals simp only [size] at *; omega

theorem reaches_operand {text : String} {opened : List Token} {p : Parser}
    (hp : p.BeforeOperand text opened) : p.operand.Reaches text opened fun _ => True := by
  rw [operand]
  split
  next hnext => exact .inr (hp.misplaced_of_next hnext)
  next rest hnext =>
    obtain ⟨expects, -, hplace, -⟩ := hp.place
    rw [TokenStream.endSpan, (hplace.of_next_none hnext).source]
    exact .inr (hp.misplaced_end (items_next_none hnext).1)
  next tok rest hnext =>
    have hsize := size_next hnext
    have hitems := items_next hnext
    have hmem : tok ∈ p.items := by simp [hitems]
    obtain ⟨expects, -, hplace, -⟩ := hp.place
    obtain ⟨hsymbol, hsource, -⟩ := hplace.of_next hnext
    split
    next hkind =>
      split
      next n hread => exact ⟨hp.int hnext hkind, fun _ _ => trivial⟩
      next error hread =>
        have hvisible := hplace.mem_visibleTokens hmem
        rw [lexed_visibleTokens text tok hvisible hkind] at hread
        simp at hread
    next hkind =>
      have hdepth := (next_eq hnext).2.trans hp.depth
      exact (reaches_paren (hp.openParen hnext hkind) hdepth).weaken _
    next kind hint hopen =>
      have hdepth := (next_eq hnext).2.trans hp.depth
      rw [remainder, TokenStream.remainderFrom, hsource]
      split
      next hclose =>
        obtain ⟨hkind, hzero⟩ : tok.kind = .closeParen ∧ rest.depth = 0 := by
          simpa using hclose
        obtain rfl : opened = [] := List.length_eq_zero_iff.1 (hdepth.symm.trans hzero)
        exact .inr (hp.misplaced_unopened hitems hkind)
      next hclose =>
        refine .inr ?_
        by_cases hkind : tok.kind = .closeParen
        · refine hp.misplaced_unfinished ?_ hitems hkind
          rintro rfl
          exact hclose (by simp [hkind, hdepth])
        · refine hp.misplaced_sign hitems ?_
          have hblank := hplace.ne_blank hmem
          cases hk : tok.kind <;> simp_all [Kind.isSign]
termination_by 6 * p.size + 2
decreasing_by all_goals simp only [size] at *; omega

theorem reaches_paren {text : String} {opened : List Token} {p : Parser} {opening : Token}
    (hp : p.At text ⟨opening :: opened, .sum⟩) (hdepth : p.depth = opened.length) :
    (paren opening p).Reaches text opened fun _ => True := by
  rw [paren]
  split
  next hpeek => exact .inr (hp.misplaced_of_peek hpeek)
  next ahead rest hpeek =>
    have hsize := size_peek hpeek
    have henter := size_enter rest
    obtain ⟨hrest, hahead⟩ := hp.of_peek hpeek
    split
    next closing hclosing =>
      obtain ⟨hsome, hkind⟩ := Option.filter_eq_some_iff.1 hclosing
      obtain ⟨ts, hts⟩ := List.head?_eq_some_iff.1 (hahead.symm.trans hsome)
      rw [remainder, TokenStream.remainderFrom, hrest.source]
      exact .inr (hp.misplaced_empty hts (by simpa using hkind))
    next hnone =>
      have hinside := hp.beforeSum hdepth hpeek hnone
      have hsum := reaches_sum hinside
      cases hread : rest.enter.sum with
      | fail error after =>
        rw [hread] at hsum
        exact hsum
      | done e after hshorter =>
        rw [hread] at hsum
        obtain ⟨hafter, hends⟩ := hsum
        have hleave := hafter.place.leave
        dsimp only
        split
        next hnext => exact .inr (hleave.misplaced_of_next hnext)
        next final hnext =>
          have hitems : after.items = [] := (items_next_none hnext).1
          rw [unclosed, remainder, TokenStream.remainderFrom,
            (hleave.of_next_none hnext).source]
          exact .inr (hafter.misplaced_end hitems)
        next tok final hnext =>
          have hleft := items_next hnext
          have hitems : after.items = tok :: final.items := hleft
          have hkind : tok.kind = .closeParen := hends tok (by simp [hitems])
          rw [if_pos hkind]
          exact ⟨hafter.closeParen hnext hkind, fun _ _ => trivial⟩
termination_by 6 * p.size + 5
decreasing_by all_goals simp only [size] at *; omega

end

theorem failed_of_full {text : String} {e : Error}
    (h : (ofSource text).full.1 = .error e) : Failed text e := by
  have hstart : (ofSource text).BeforeSum text [] :=
    ⟨at_ofSource text, rfl, fun hne => absurd rfl hne⟩
  have hsum := reaches_sum hstart
  unfold full at h
  split at h
  next error rest hread =>
    obtain rfl := Except.error.inj h
    rw [hread] at hsum
    exact hsum
  next e' rest hshorter hread =>
    rw [hread] at hsum
    obtain ⟨hrest, hends⟩ := hsum
    split at h
    next hnext =>
      obtain rfl := Except.error.inj h
      exact .inr (hrest.place.misplaced_of_next hnext)
    · simp at h
    next tok final hnext =>
      obtain rfl := Except.error.inj h
      have hitems := items_next hnext
      have hkind : tok.kind = .closeParen := hends tok (by simp [hitems])
      rw [remainder, TokenStream.remainderFrom, (hrest.place.of_next hnext).2.1]
      exact .inr (hrest.misplaced_unopened hitems hkind)

end Parser

/-! ## Whole texts -/

/-- A text that does not parse, and not because of a division by zero, has exactly one
first impossible token, and the error is the one of the table for it. -/
theorem Expr.reported_of_parse {text : String} {e : Error} (h : parse text = .error e)
    (hcause : ∀ remainder, e.cause ≠ .divisionByZero remainder) :
    ∃ k, (∀ j, FirstImpossible (visibleTokens text) j ↔ j = k) ∧
      ∀ e', Reported text ((visibleTokens text).take k) ((visibleTokens text).drop k) e' ↔
        e' = e := by
  rcases Parser.failed_of_full h with ⟨remainder, hzero⟩ | hmisplaced
  · exact absurd hzero (hcause remainder)
  obtain ⟨front, rest, htokens, hfirst, hreported⟩ := hmisplaced
  refine ⟨front.length, fun j => ⟨fun hj => hj.unique hfirst, fun hj => hj ▸ hfirst⟩, ?_⟩
  rw [htokens, List.take_left, List.drop_left]
  exact fun e' => ⟨fun he' => he'.unique hreported, fun he' => he' ▸ hreported⟩

theorem Expr.reported_of_parse_unfinished_sum :
    parse "2 × (3 + )" = .error (.about ⟨10, 11⟩ (.missingOperand ")")) ∧
      ∃ k, (∀ j, FirstImpossible (visibleTokens "2 × (3 + )") j ↔ j = k) ∧
        ∀ e', Reported "2 × (3 + )" ((visibleTokens "2 × (3 + )").take k)
          ((visibleTokens "2 × (3 + )").drop k) e' ↔
            e' = .about ⟨10, 11⟩ (.missingOperand ")") := by
  have herror : parse "2 × (3 + )" = .error (.about ⟨10, 11⟩ (.missingOperand ")")) := by
    decide +kernel
  exact ⟨herror, Expr.reported_of_parse herror (by simp [Error.about])⟩

end TwentyFour
