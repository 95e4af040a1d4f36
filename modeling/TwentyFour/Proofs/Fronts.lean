import Mathlib.Data.List.Induction
import TwentyFour.Proofs.Grammar

/-!
# Fronts of sentences

Whether tokens can be continued to a sentence can be told from left to right, from
the parentheses that are still open and from what may come next.

* `Sentence` and `Viable` are the sentences of the grammar and their fronts.
* `Place` is a place between two tokens, and `Place.step` goes over one token.
  `Place.Leads` goes over the tokens in front of others, and `Derives.leads` says
  that what is derivable leads from the entry of its part behind an operand.
* `Place.Completes` says what has to come behind a place.  `Completes.of_step`
  carries it back over one token, and `exists_completes` says that no place is a
  dead end.
* `viable_iff` and `sentence_iff` are the results.
* `stillOpen` lists the parentheses that are still open, and `Place.eq_of_after` says
  that they and the last token are all there is to know.
* `FirstImpossible` is the index at which tokens stop being the front of a sentence.
-/

namespace TwentyFour

/-- The tokens are derivable as a sum. -/
def Sentence (ts : List Token) : Prop :=
  ∃ t, Derives .sum ts t []

/-- The tokens are the front of a sentence. -/
def Viable (ts : List Token) : Prop :=
  ∃ us, Sentence (ts ++ us)

/-- Whether tokens of the kind stand between operands. -/
def Kind.isSign : Kind → Bool
  | .add | .sub | .mul | .div => true
  | _ => false

theorem Kind.isSign_iff {k : Kind} :
    k.isSign = true ↔ ∃ cls reverse, k.direction? cls = some reverse := by
  constructor
  · intro h
    cases k with
    | add => exact ⟨.additive, false, rfl⟩
    | sub => exact ⟨.additive, true, rfl⟩
    | mul => exact ⟨.multiplicative, false, rfl⟩
    | div => exact ⟨.multiplicative, true, rfl⟩
    | blank | openParen | closeParen | int | symbol => simp [isSign] at h
  · rintro ⟨cls, reverse, h⟩
    cases cls <;> cases k <;> simp_all [direction?, isSign]

/-! ## Places -/

/-- What may come next. -/
inductive Expect where
  /-- A sum, which may start with a sign. -/
  | sum
  /-- An operand. -/
  | operand
  /-- A sign between operands, or the end of a sum. -/
  | sign
deriving DecidableEq, Repr

/-- A place between two tokens: the parentheses that are open there, the innermost
first, and what may come next. -/
structure Place where
  opened : List Token
  expects : Expect
deriving DecidableEq, Repr

namespace Place

/-- The place in front of all tokens. -/
def start : Place :=
  ⟨[], .sum⟩

/-- Goes over one token, if it may come next. -/
def step (p : Place) (tok : Token) : Option Place :=
  match p.expects, tok.kind with
  | .sum, .add => some ⟨p.opened, .operand⟩
  | .sum, .int | .operand, .int => some ⟨p.opened, .sign⟩
  | .sum, .openParen | .operand, .openParen => some ⟨tok :: p.opened, .sum⟩
  | .sign, .add | .sign, .sub | .sign, .mul | .sign, .div => some ⟨p.opened, .operand⟩
  | .sign, .closeParen =>
    match p.opened with
    | [] => none
    | _ :: opened => some ⟨opened, .sign⟩
  | _, _ => none

/-- Goes over tokens, one after the other. -/
def after (p : Place) (ts : List Token) : Option Place :=
  ts.foldlM step p

theorem after_cons (p : Place) (tok : Token) (ts : List Token) :
    p.after (tok :: ts) = (p.step tok).bind fun q => q.after ts := by
  rw [after, List.foldlM_cons]
  rfl

theorem after_append (p : Place) (ts us : List Token) :
    p.after (ts ++ us) = (p.after ts).bind fun q => q.after us := by
  rw [after, List.foldlM_append]
  rfl

/-- The tokens in front of `rest` lead from one place to another. -/
def Leads (p : Place) (ts : List Token) (q : Place) (rest : List Token) : Prop :=
  ∃ front, ts = front ++ rest ∧ p.after front = some q

namespace Leads

variable {p q r : Place} {ts us rest : List Token}

theorem refl (p : Place) (ts : List Token) : p.Leads ts p ts :=
  ⟨[], rfl, rfl⟩

theorem step {tok : Token} (h : p.step tok = some q) (hq : q.Leads ts r rest) :
    p.Leads (tok :: ts) r rest := by
  obtain ⟨front, rfl, hfront⟩ := hq
  exact ⟨tok :: front, rfl, by rw [after_cons, h, Option.bind_some, hfront]⟩

theorem trans (h : p.Leads ts q us) (hq : q.Leads us r rest) : p.Leads ts r rest := by
  obtain ⟨front, rfl, hfront⟩ := h
  obtain ⟨back, rfl, hback⟩ := hq
  exact ⟨front ++ back, by rw [List.append_assoc],
    by rw [after_append, hfront, Option.bind_some, hback]⟩

theorem after_eq (h : p.Leads ts q []) : p.after ts = some q := by
  obtain ⟨front, rfl, hfront⟩ := h
  rw [List.append_nil]
  exact hfront

end Leads

/-! ### One step -/

section Step

variable {opened : List Token} {tok : Token}

theorem step_int {expects : Expect} (hexpects : expects ≠ .sign) (hkind : tok.kind = .int) :
    (Place.mk opened expects).step tok = some ⟨opened, .sign⟩ := by
  cases expects <;> simp_all [step]

theorem step_openParen {expects : Expect} (hexpects : expects ≠ .sign)
    (hkind : tok.kind = .openParen) :
    (Place.mk opened expects).step tok = some ⟨tok :: opened, .sum⟩ := by
  cases expects <;> simp_all [step]

theorem step_closeParen {opening : Token} (hkind : tok.kind = .closeParen) :
    (Place.mk (opening :: opened) .sign).step tok = some ⟨opened, .sign⟩ := by
  simp [step, hkind]

theorem step_plus (hkind : tok.kind = .add) :
    (Place.mk opened .sum).step tok = some ⟨opened, .operand⟩ := by
  simp [step, hkind]

theorem step_sign (hkind : tok.kind.isSign = true) :
    (Place.mk opened .sign).step tok = some ⟨opened, .operand⟩ := by
  cases hk : tok.kind <;> simp_all [step, Kind.isSign]

theorem step_symbol (p : Place) (hkind : tok.kind = .symbol) : p.step tok = none := by
  obtain ⟨opened, expects⟩ := p
  cases expects <;> simp [step, hkind]

theorem step_operand (hkind : tok.kind = .int ∨ tok.kind = .openParen) :
    (Place.mk opened .sign).step tok = none := by
  rcases hkind with hk | hk <;> simp [step, hk]

/-- What may come where an operand is expected may also come where a sum is. -/
theorem step_sum_of_step_operand {q : Place}
    (h : (Place.mk opened .operand).step tok = some q) :
    (Place.mk opened .sum).step tok = some q := by
  cases hkind : tok.kind <;> simp_all [step]

/-- The ways to go over one token. -/
theorem step_cases {p q : Place} (h : p.step tok = some q) :
    (p.expects ≠ .sign ∧ tok.kind = .int ∧ q = ⟨p.opened, .sign⟩) ∨
    (p.expects ≠ .sign ∧ tok.kind = .openParen ∧ q = ⟨tok :: p.opened, .sum⟩) ∨
    (p.expects = .sum ∧ tok.kind = .add ∧ q = ⟨p.opened, .operand⟩) ∨
    (p.expects = .sign ∧ tok.kind.isSign = true ∧ q = ⟨p.opened, .operand⟩) ∨
    (p.expects = .sign ∧ tok.kind = .closeParen ∧
      ∃ opening opened, p.opened = opening :: opened ∧ q = ⟨opened, .sign⟩) := by
  rw [step] at h
  split at h
  case h_10 hexpects hkind =>
    cases hopened : p.opened with
    | nil => simp [hopened] at h
    | cons opening opened => simp_all
  case h_11 => simp at h
  all_goals simp_all [Kind.isSign]

end Step

end Place

/-! ## Parts of the grammar, from left to right -/

/-- What comes next in front of a part. -/
def Part.entry : Part → Expect
  | .operand | .product => .operand
  | .sum => .sum
  | .after _ _ => .sign

/-- An operand may come where a sum is expected. -/
theorem Place.Leads.sum_of_operand {opened opened' : List Token} {ts rest : List Token}
    (h : (Place.mk opened .operand).Leads ts ⟨opened', .sign⟩ rest) :
    (Place.mk opened .sum).Leads ts ⟨opened', .sign⟩ rest := by
  obtain ⟨front, rfl, hfront⟩ := h
  cases front with
  | nil => simp [after] at hfront
  | cons tok front =>
    rw [after_cons] at hfront
    obtain ⟨q, hstep, hq⟩ := Option.bind_eq_some_iff.1 hfront
    exact .step (step_sum_of_step_operand hstep) ⟨front, rfl, hq⟩

/-- The tokens of a part lead from its entry to the place behind an operand, with the
same parentheses open. -/
theorem Derives.leads {part : Part} {ts rest : List Token} {t : Tree}
    (h : Derives part ts t rest) (opened : List Token) :
    (Place.mk opened part.entry).Leads ts ⟨opened, .sign⟩ rest := by
  induction h generalizing opened with
  | int hkind => exact .step (Place.step_int (by simp [Part.entry]) hkind) (.refl _ _)
  | @paren opening closing _ _ _ hopening _ hclosing ih =>
    have hinside := (ih (opening :: opened)).trans
      (.step (Place.step_closeParen hclosing) (.refl _ _))
    exact .step (Place.step_openParen (by simp [Part.entry]) hopening) hinside
  | product _ _ ihfirst ihafter => exact (ihfirst opened).trans (ihafter opened)
  | sum _ _ ihfirst ihafter =>
    exact (ihfirst opened).sum_of_operand.trans (ihafter opened)
  | plus hsign _ _ ihfirst ihafter =>
    exact .step (Place.step_plus hsign) ((ihfirst opened).trans (ihafter opened))
  | stop => exact .refl _ _
  | @more cls reverse _ ts us _ _ _ _ hsign _ _ ihitem ihafter =>
    have hitem : (Place.mk opened .operand).Leads ts ⟨opened, .sign⟩ us := by
      cases cls <;> exact ihitem opened
    have hkind := Kind.isSign_iff.2 ⟨cls, reverse, hsign⟩
    exact .step (Place.step_sign hkind) (hitem.trans (ihafter opened))

/-! ## What has to come behind a place -/

/-- The first tokens are the rest of a sum behind one of its operands, in front of the
others. -/
def Continues (ts rest : List Token) : Prop :=
  ∃ us, (∀ t, ∃ u, Derives (.after .multiplicative t) ts u us) ∧
    ∀ t, ∃ u, Derives (.after .additive t) us u rest

namespace Continues

variable {ts us rest : List Token} {t : Tree}

theorem stop (ts : List Token) : Continues ts ts :=
  ⟨ts, fun t => ⟨t, .stop⟩, fun t => ⟨t, .stop⟩⟩

/-- A product is an operand and what continues it. -/
theorem product (hfirst : Derives .operand ts t us) (h : Continues us rest) :
    ∃ u vs, Derives .product ts u vs ∧ ∀ t, ∃ u, Derives (.after .additive t) vs u rest := by
  obtain ⟨vs, hproduct, hsum⟩ := h
  obtain ⟨u, hu⟩ := hproduct t
  exact ⟨u, vs, .product hfirst hu, hsum⟩

/-- A further operand continues a sum. -/
theorem more {sign : Token} (hsign : sign.kind.isSign = true)
    (hitem : Derives .operand ts t us) (h : Continues us rest) :
    Continues (sign :: ts) rest := by
  obtain ⟨cls, reverse, hdirection⟩ := Kind.isSign_iff.1 hsign
  cases cls with
  | multiplicative =>
    obtain ⟨vs, hproduct, hsum⟩ := h
    refine ⟨vs, fun lhs => ?_, hsum⟩
    obtain ⟨u, hu⟩ := hproduct (.node .multiplicative reverse lhs t)
    exact ⟨u, .more hdirection hitem hu⟩
  | additive =>
    obtain ⟨u, vs, hproduct, hsum⟩ := h.product hitem
    refine ⟨sign :: ts, fun lhs => ⟨lhs, .stop⟩, fun lhs => ?_⟩
    obtain ⟨v, hv⟩ := hsum (.node .additive reverse lhs u)
    exact ⟨v, .more hdirection hproduct hv⟩

theorem sum (hfirst : Derives .operand ts t us) (h : Continues us rest) :
    ∃ u, Derives .sum ts u rest := by
  obtain ⟨u, vs, hproduct, hsum⟩ := h.product hfirst
  obtain ⟨v, hv⟩ := hsum u
  exact ⟨v, .sum hproduct hv⟩

theorem plus {sign : Token} (hsign : sign.kind = .add) (hfirst : Derives .operand ts t us)
    (h : Continues us rest) : ∃ u, Derives .sum (sign :: ts) u rest := by
  obtain ⟨u, vs, hproduct, hsum⟩ := h.product hfirst
  obtain ⟨v, hv⟩ := hsum u
  exact ⟨v, .plus hsign hproduct hv⟩

end Continues

/-- The tokens end a sum inside of open parentheses and everything around it. -/
def Ends : List Token → List Token → Prop
  | [], ts => ts = []
  | _ :: opened, ts => ∃ closing us rest, ts = closing :: us ∧ closing.kind = .closeParen ∧
      Continues us rest ∧ Ends opened rest

namespace Place

/-- The tokens complete a sentence behind a place. -/
def Completes (p : Place) (ts : List Token) : Prop :=
  match p.expects with
  | .sum => ∃ t rest, Derives .sum ts t rest ∧ Ends p.opened rest
  | .operand => ∃ t us rest, Derives .operand ts t us ∧ Continues us rest ∧ Ends p.opened rest
  | .sign => ∃ rest, Continues ts rest ∧ Ends p.opened rest

/-- What completes an operand and the rest of a sum also completes a sum. -/
theorem completes_of_operand {p : Place} {t : Tree} {ts us rest : List Token}
    (hp : p.expects ≠ .sign) (hfirst : Derives .operand ts t us)
    (hus : Continues us rest) (hends : Ends p.opened rest) : p.Completes ts := by
  obtain ⟨opened, expects⟩ := p
  cases expects with
  | sum =>
    obtain ⟨u, hu⟩ := hus.sum hfirst
    exact ⟨u, rest, hu, hends⟩
  | operand => exact ⟨t, us, rest, hfirst, hus, hends⟩
  | sign => exact absurd rfl hp

/-- What completes the place behind a token completes the one in front of it together
with the token. -/
theorem Completes.of_step {p q : Place} {tok : Token} {ts : List Token}
    (h : p.step tok = some q) (hq : q.Completes ts) : p.Completes (tok :: ts) := by
  rcases step_cases h with ⟨hp, hkind, rfl⟩ | ⟨hp, hkind, rfl⟩ | ⟨hp, hkind, rfl⟩ |
    ⟨hp, hkind, rfl⟩ | ⟨hp, hkind, opening, opened, hopened, rfl⟩
  · obtain ⟨rest, hts, hends⟩ := hq
    exact completes_of_operand hp (.int hkind) hts hends
  · obtain ⟨t, rest, hsum, closing, us, rest', rfl, hclosing, hus, hends⟩ := hq
    exact completes_of_operand hp (.paren hkind hsum hclosing) hus hends
  · obtain ⟨t, us, rest, hfirst, hus, hends⟩ := hq
    obtain ⟨u, hu⟩ := hus.plus hkind hfirst
    rw [Completes, hp]
    exact ⟨u, rest, hu, hends⟩
  · obtain ⟨t, us, rest, hfirst, hus, hends⟩ := hq
    rw [Completes, hp]
    exact ⟨rest, hus.more hkind hfirst, hends⟩
  · obtain ⟨rest, hts, hends⟩ := hq
    rw [Completes, hp]
    refine ⟨tok :: ts, .stop _, ?_⟩
    rw [hopened]
    exact ⟨tok, ts, rest, rfl, hkind, hts, hends⟩

theorem Completes.of_after {p q : Place} {ts us : List Token} (h : p.after ts = some q)
    (hq : q.Completes us) : p.Completes (ts ++ us) := by
  induction ts generalizing p with
  | nil =>
    rw [← Option.some.inj h] at hq
    exact hq
  | cons tok ts ih =>
    rw [after_cons] at h
    obtain ⟨r, hstep, hr⟩ := Option.bind_eq_some_iff.1 h
    exact .of_step hstep (ih hr)

theorem exists_ends (opened : List Token) : ∃ ts, Ends opened ts := by
  induction opened with
  | nil => exact ⟨[], rfl⟩
  | cons opening opened ih =>
    obtain ⟨ts, hts⟩ := ih
    exact ⟨_, ⟨.closeParen, ")", 0, 1⟩, ts, ts, rfl, rfl, .stop ts, hts⟩

/-- No place is a dead end. -/
theorem exists_completes (p : Place) : ∃ ts, p.Completes ts := by
  obtain ⟨ts, hts⟩ := exists_ends p.opened
  by_cases hp : p.expects = .sign
  · refine ⟨ts, ?_⟩
    rw [Completes, hp]
    exact ⟨ts, .stop ts, hts⟩
  · exact ⟨⟨.int, "0", 0, 1⟩ :: ts, completes_of_operand hp (.int rfl) (.stop ts) hts⟩

end Place

/-- Tokens are a sentence if they lead behind an operand outside of all parentheses. -/
theorem sentence_iff {ts : List Token} :
    Sentence ts ↔ Place.start.after ts = some ⟨[], .sign⟩ := by
  constructor
  · rintro ⟨t, ht⟩
    exact (ht.leads []).after_eq
  · intro h
    have hend : (Place.mk [] .sign).Completes [] := ⟨[], .stop [], rfl⟩
    obtain ⟨t, rest, hsum, hrest⟩ := hend.of_after h
    rw [List.append_nil, show rest = [] from hrest] at hsum
    exact ⟨t, hsum⟩

/-- Tokens are the front of a sentence if they lead anywhere. -/
theorem viable_iff {ts : List Token} :
    Viable ts ↔ ∃ p, Place.start.after ts = some p := by
  constructor
  · rintro ⟨us, hus⟩
    have hafter := sentence_iff.1 hus
    rw [Place.after_append] at hafter
    obtain ⟨p, hp, -⟩ := Option.bind_eq_some_iff.1 hafter
    exact ⟨p, hp⟩
  · rintro ⟨p, hp⟩
    obtain ⟨us, hus⟩ := p.exists_completes
    obtain ⟨t, rest, hsum, hrest⟩ := hus.of_after hp
    rw [show rest = [] from hrest] at hsum
    exact ⟨us, t, hsum⟩

/-! ## Open parentheses and the last token -/

/-- The parentheses that are still open behind tokens, the innermost first. -/
def stillOpen (ts : List Token) : List Token :=
  ts.foldl (fun opened tok =>
    match tok.kind with
    | .openParen => tok :: opened
    | .closeParen => opened.tail
    | _ => opened) []

theorem stillOpen_snoc (ts : List Token) (tok : Token) :
    stillOpen (ts ++ [tok]) =
      match tok.kind with
      | .openParen => tok :: stillOpen ts
      | .closeParen => (stillOpen ts).tail
      | _ => stillOpen ts := by
  rw [stillOpen, List.foldl_append]
  rfl

theorem head?_stillOpen {ts : List Token} {tok : Token} (hlast : ts.getLast? = some tok)
    (hkind : tok.kind = .openParen) : (stillOpen ts).head? = some tok := by
  obtain ⟨front, rfl⟩ := List.getLast?_eq_some_iff.1 hlast
  rw [stillOpen_snoc, hkind]
  rfl

/-- What comes next behind a token, or in front of all of them. -/
def Expect.behind : Option Token → Expect
  | none => .sum
  | some tok =>
    match tok.kind with
    | .int | .closeParen => .sign
    | .openParen => .sum
    | _ => .operand

theorem Expect.behind_eq_sign_iff {last : Option Token} :
    behind last = .sign ↔
      ∃ tok, last = some tok ∧ (tok.kind = .int ∨ tok.kind = .closeParen) := by
  rcases last with _ | tok
  · simp [behind]
  · cases hkind : tok.kind <;> simp [behind, hkind]

theorem Expect.behind_eq_sum_iff {last : Option Token} :
    behind last = .sum ↔ ∀ tok ∈ last, tok.kind = .openParen := by
  rcases last with _ | tok
  · simp [behind]
  · cases hkind : tok.kind <;> simp [behind, hkind]

namespace Place

theorem opened_of_step {p q : Place} {tok : Token} {ts : List Token}
    (h : p.step tok = some q) (hp : p.opened = stillOpen ts) :
    q.opened = stillOpen (ts ++ [tok]) := by
  rw [stillOpen_snoc, ← hp]
  rcases step_cases h with ⟨-, hkind, rfl⟩ | ⟨-, hkind, rfl⟩ | ⟨-, hkind, rfl⟩ |
    ⟨-, hkind, rfl⟩ | ⟨-, hkind, opening, opened, hopened, rfl⟩
  · simp only [hkind]
  · simp only [hkind]
  · simp only [hkind]
  · cases hk : tok.kind <;> simp_all [Kind.isSign]
  · simp only [hkind, hopened, List.tail_cons]

theorem expects_of_step {p q : Place} {tok : Token} (h : p.step tok = some q) :
    q.expects = .behind (some tok) := by
  rcases step_cases h with ⟨-, hkind, rfl⟩ | ⟨-, hkind, rfl⟩ | ⟨-, hkind, rfl⟩ |
    ⟨-, hkind, rfl⟩ | ⟨-, hkind, opening, opened, -, rfl⟩
  · simp only [Expect.behind, hkind]
  · simp only [Expect.behind, hkind]
  · simp only [Expect.behind, hkind]
  · cases hk : tok.kind <;> simp_all [Expect.behind, Kind.isSign]
  · simp only [Expect.behind, hkind]

/-- The place behind tokens is known from what is still open and the last token. -/
theorem eq_of_after {ts : List Token} {p : Place} (h : start.after ts = some p) :
    p = ⟨stillOpen ts, .behind ts.getLast?⟩ := by
  induction ts using List.reverseRecOn generalizing p with
  | nil => exact (Option.some.inj h).symm
  | append_singleton ts tok ih =>
    rw [after_append] at h
    obtain ⟨q, hq, hp⟩ := Option.bind_eq_some_iff.1 h
    rw [after_cons] at hp
    obtain ⟨r, hstep, hr⟩ := Option.bind_eq_some_iff.1 hp
    obtain rfl : r = p := Option.some.inj hr
    have hopened := opened_of_step hstep (congrArg opened (ih hq))
    rw [List.getLast?_concat, ← hopened, ← expects_of_step hstep]

end Place

/-! ## The first impossible token -/

/-- The token at the index is the first that no sentence has there, or the tokens end
there and go on in every sentence. -/
def FirstImpossible (ts : List Token) (k : Nat) : Prop :=
  (∀ j < k, Viable (ts.take (j + 1))) ∧
    (k < ts.length ∧ ¬ Viable (ts.take (k + 1)) ∨
      k = ts.length ∧ Viable ts ∧ ¬ Sentence ts)

theorem Viable.of_append {ts us : List Token} (h : Viable (ts ++ us)) : Viable ts := by
  obtain ⟨vs, hvs⟩ := h
  exact ⟨us ++ vs, by rwa [List.append_assoc] at hvs⟩

namespace FirstImpossible

theorem le_of_le {ts : List Token} {k l : Nat} (hk : FirstImpossible ts k)
    (hl : FirstImpossible ts l) : l ≤ k := by
  by_contra! hlt
  have hlength : l ≤ ts.length := by
    rcases hl.2 with ⟨h, -⟩ | ⟨h, -⟩ <;> omega
  rcases hk.2 with ⟨-, hnot⟩ | ⟨heq, -⟩
  · exact hnot (hl.1 k hlt)
  · omega

theorem unique {ts : List Token} {k l : Nat} (hk : FirstImpossible ts k)
    (hl : FirstImpossible ts l) : k = l :=
  Nat.le_antisymm (hl.le_of_le hk) (hk.le_of_le hl)

theorem viable_take {front rest : List Token} (hfront : Viable front) :
    ∀ j < front.length, Viable ((front ++ rest).take (j + 1)) := by
  intro j hj
  have htake : (front ++ rest).take (j + 1) = front.take (j + 1) :=
    List.take_append_of_le_length hj
  rw [htake]
  have hsplit := List.take_append_drop (j + 1) front
  exact Viable.of_append (hsplit ▸ hfront)

theorem of_step {front rest : List Token} {p : Place} {tok : Token}
    (hfront : Place.start.after front = some p) (hstep : p.step tok = none) :
    FirstImpossible (front ++ tok :: rest) front.length := by
  refine ⟨viable_take (viable_iff.2 ⟨p, hfront⟩), .inl ⟨by simp, fun hviable => ?_⟩⟩
  have htake : (front ++ tok :: rest).take (front.length + 1) = front ++ [tok] := by
    rw [List.append_cons]
    exact List.take_left' (by simp)
  obtain ⟨q, hq⟩ := viable_iff.1 (htake ▸ hviable)
  rw [Place.after_append, hfront, Option.bind_some, Place.after_cons, hstep] at hq
  simp at hq

theorem of_end {ts : List Token} {p : Place} (h : Place.start.after ts = some p)
    (hp : p ≠ ⟨[], .sign⟩) : FirstImpossible ts ts.length := by
  have hviable := viable_iff.2 ⟨p, h⟩
  have hfront : ∀ j < ts.length, Viable ((ts ++ []).take (j + 1)) := viable_take hviable
  rw [List.append_nil] at hfront
  refine ⟨hfront, .inr ⟨rfl, hviable, fun hsentence => hp ?_⟩⟩
  rw [sentence_iff, h] at hsentence
  exact Option.some.inj hsentence

end FirstImpossible

end TwentyFour
