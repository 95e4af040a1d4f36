import TwentyFour.Proofs.Grammar
import TwentyFour.Proofs.Readers

/-!
# Reading follows the grammar

The readers accept exactly what the grammar derives, and give the canonical
expression of the literal tree.

* `denotes_of_sum` and the five theorems beside it are soundness, by recursion
  along the readers.
* `Reads` is the relation that the readers compute, with one lemma for each rule
  of the grammar.  `exists_reads` is completeness, by induction on a derivation.
* `Expr.parse_eq_ok_iff_derives` puts the two together for whole texts.
-/

namespace TwentyFour

/-! ## What is read is derivable -/

/-- The tokens before the second list are derivable from the part, and their
tree has a value and the given canonical expression. -/
def Denotes (part : Part) (ts : List Token) (e : Expr) (rest : List Token) : Prop :=
  ∃ t, Derives part ts t rest ∧ t.canon = e ∧ t.eval.isSome

theorem Lexed.of_cons {tok : Token} {ts : List Token} (h : Lexed (tok :: ts)) :
    Lexed ts :=
  fun tok' htok' => h tok' (List.mem_cons_of_mem tok htok')

theorem Lexed.mono {part : Part} {ts rest : List Token} {t : Tree} (h : Lexed ts)
    (ht : Derives part ts t rest) : Lexed rest :=
  fun tok htok => h tok (ht.taken.subset htok)

theorem isSome_eval_node_additive {reverse : Bool} {lhs rhs : Tree}
    (hl : lhs.eval.isSome) (hr : rhs.eval.isSome) :
    (Tree.node .additive reverse lhs rhs).eval.isSome := by
  obtain ⟨v, hv⟩ := Option.isSome_iff_exists.1 hl
  obtain ⟨w, hw⟩ := Option.isSome_iff_exists.1 hr
  rw [Tree.eval, hv, hw]
  cases reverse <;> rfl

theorem isSome_value_canon_node {cls : OpClass} {reverse : Bool} {lhs rhs : Tree}
    (hl : lhs.eval.isSome) (hr : rhs.eval.isSome) :
    (Tree.node cls reverse lhs rhs).canon.value.isSome =
      (Tree.node cls reverse lhs rhs).eval.isSome := by
  obtain ⟨v, hv⟩ := Option.isSome_iff_exists.1 hl
  obtain ⟨w, hw⟩ := Option.isSome_iff_exists.1 hr
  rw [Tree.value_canon_node hv hw]

namespace Parser

-- The recursion is that of the readers, with their measure.  The facts about sizes
-- in each proof are for the calls that follow them.
mutual

theorem denotes_of_sum {p rest : Parser} {e : Expr} (hlexed : Lexed p.items)
    (h : p.sum.result? = some (e, rest)) : Denotes .sum p.items e rest.items := by
  rw [result?_sum] at h
  rcases hskip : p.skipPlus with ⟨_ | _, q⟩
  · simp [hskip] at h
  rw [hskip] at h
  obtain ⟨⟨⟨first, span⟩, after⟩, hproduct, hafter⟩ := Option.bind_eq_some_iff.1 h
  have hle := size_skipPlus hskip
  have hlt := Step.size_lt hproduct
  have hitems := items_skipPlus hskip
  have hq : Lexed q.items := by
    rcases hitems with hplus | heq
    · obtain ⟨sign, -, hp⟩ := hplus
      exact Lexed.of_cons (hp ▸ hlexed)
    · exact heq ▸ hlexed
  obtain ⟨t, ht, rfl, hteval⟩ := denotes_of_product hq hproduct
  obtain ⟨u, hu, hcanon, hueval⟩ := denotes_of_sumAfter (hq.mono ht) hteval hafter
  refine ⟨u, ?_, hcanon, hueval⟩
  rcases hitems with hplus | heq
  · obtain ⟨sign, hsign, hp⟩ := hplus
    rw [hp]
    exact .plus hsign ht hu
  · rw [← heq]
    exact .sum ht hu
termination_by 6 * p.size + 4
decreasing_by all_goals simp only [size] at *; omega

theorem denotes_of_sumAfter {p rest : Parser} {lhs : Tree} {e : Expr}
    (hlexed : Lexed p.items) (hlhs : lhs.eval.isSome)
    (h : (sumAfter lhs.canon p).result? = some (e, rest)) :
    Denotes (.after .additive lhs) p.items e rest.items := by
  rw [result?_sumAfter] at h
  rcases hnext : p.next with ⟨_ | _ | tok, q⟩
  · simp [hnext] at h
  · rw [hnext] at h
    obtain ⟨rfl, rfl⟩ := Prod.mk.inj (Option.some.inj h)
    obtain ⟨hp, hq⟩ := items_next_none hnext
    rw [hp, hq]
    exact ⟨lhs, .stop, rfl, hlhs⟩
  rw [hnext] at h
  dsimp only at h
  cases hdirection : tok.kind.direction? .additive with
  | none =>
    rw [hdirection] at h
    dsimp only at h
    split at h
    · simp at h
    obtain ⟨rfl, rfl⟩ := Prod.mk.inj (Option.some.inj h)
    rw [items_pushBack hnext]
    exact ⟨lhs, .stop, rfl, hlhs⟩
  | some reverse =>
    rw [hdirection] at h
    obtain ⟨⟨⟨rhs, span⟩, after⟩, hproduct, hafter⟩ := Option.bind_eq_some_iff.1 h
    have hsize := size_next hnext
    have hlt := Step.size_lt hproduct
    rw [items_next hnext] at hlexed ⊢
    obtain ⟨u, hu, rfl, hueval⟩ := denotes_of_product hlexed.of_cons hproduct
    obtain ⟨v, hv, hcanon, hveval⟩ := denotes_of_sumAfter (hlexed.of_cons.mono hu)
      (isSome_eval_node_additive hlhs hueval) hafter
    exact ⟨v, .more hdirection hu hv, hcanon, hveval⟩
termination_by 6 * p.size
decreasing_by all_goals simp only [size] at *; omega

theorem denotes_of_product {p rest : Parser} {e : Expr} {span : Span}
    (hlexed : Lexed p.items) (h : p.product.result? = some ((e, span), rest)) :
    Denotes .product p.items e rest.items := by
  rw [result?_product] at h
  obtain ⟨⟨⟨first, span'⟩, after⟩, hoperand, hafter⟩ := Option.bind_eq_some_iff.1 h
  have hlt := Step.size_lt hoperand
  obtain ⟨t, ht, rfl, hteval⟩ := denotes_of_operand hlexed hoperand
  obtain ⟨u, hu, hcanon, hueval⟩ :=
    denotes_of_productAfter (hlexed.mono ht) hteval hafter
  exact ⟨u, .product ht hu, hcanon, hueval⟩
termination_by 6 * p.size + 3
decreasing_by all_goals simp only [size] at *; omega

theorem denotes_of_productAfter {p rest : Parser} {lhs : Tree} {e : Expr}
    {span span' : Span} (hlexed : Lexed p.items) (hlhs : lhs.eval.isSome)
    (h : (productAfter lhs.canon span p).result? = some ((e, span'), rest)) :
    Denotes (.after .multiplicative lhs) p.items e rest.items := by
  rw [result?_productAfter] at h
  rcases hnext : p.next with ⟨_ | _ | tok, q⟩
  · simp [hnext] at h
  · rw [hnext] at h
    obtain ⟨heq, rfl⟩ := Prod.mk.inj (Option.some.inj h)
    obtain ⟨hp, hq⟩ := items_next_none hnext
    rw [hp, hq]
    exact ⟨lhs, .stop, (Prod.mk.inj heq).1, hlhs⟩
  rw [hnext] at h
  dsimp only at h
  cases hdirection : tok.kind.direction? .multiplicative with
  | none =>
    rw [hdirection] at h
    obtain ⟨heq, rfl⟩ := Prod.mk.inj (Option.some.inj h)
    rw [items_pushBack hnext]
    exact ⟨lhs, .stop, (Prod.mk.inj heq).1, hlhs⟩
  | some reverse =>
    rw [hdirection] at h
    obtain ⟨⟨⟨rhs, divisor⟩, after⟩, hoperand, hafter⟩ := Option.bind_eq_some_iff.1 h
    have hsize := size_next hnext
    have hlt := Step.size_lt hoperand
    rw [items_next hnext] at hlexed ⊢
    obtain ⟨u, hu, rfl, hueval⟩ := denotes_of_operand hlexed.of_cons hoperand
    dsimp only at hafter
    split at hafter
    · simp at hafter
    next hvalue =>
      -- the reader checks the value of the whole product so far, not the divisor
      have hnode : (Tree.node .multiplicative reverse lhs u).eval.isSome := by
        rw [← isSome_value_canon_node hlhs hueval]
        simpa [Tree.canon, Option.isSome_iff_ne_none] using hvalue
      obtain ⟨v, hv, hcanon, hveval⟩ := denotes_of_productAfter (hlexed.of_cons.mono hu)
        hnode hafter
      exact ⟨v, .more hdirection hu hv, hcanon, hveval⟩
termination_by 6 * p.size
decreasing_by all_goals simp only [size] at *; omega

theorem denotes_of_operand {p rest : Parser} {e : Expr} {span : Span}
    (hlexed : Lexed p.items) (h : p.operand.result? = some ((e, span), rest)) :
    Denotes .operand p.items e rest.items := by
  rw [result?_operand] at h
  rcases hnext : p.next with ⟨_ | _ | tok, q⟩
  · simp [hnext] at h
  · simp [hnext] at h
  rw [hnext] at h
  dsimp only at h
  have hsize := size_next hnext
  rw [items_next hnext] at hlexed ⊢
  cases hkind : tok.kind with
  | int =>
    rw [hkind, hlexed tok List.mem_cons_self hkind] at h
    obtain ⟨heq, rfl⟩ := Prod.mk.inj (Option.some.inj h)
    refine ⟨.leaf tok.decimal, .int hkind, ?_, rfl⟩
    rw [Tree.canon, ← (Prod.mk.inj heq).1, Int.cast_natCast]
  | openParen =>
    rw [hkind] at h
    obtain ⟨closing, hclosing, t, ht, hcanon, hteval⟩ :=
      denotes_of_paren hlexed.of_cons h
    exact ⟨t, .paren hkind ht hclosing, hcanon, hteval⟩
  | closeParen | blank | add | sub | mul | div | symbol =>
    rw [hkind] at h
    simp at h
termination_by 6 * p.size + 2
decreasing_by all_goals simp only [size] at *; omega

theorem denotes_of_paren {opening : Token} {p rest : Parser} {e : Expr} {span : Span}
    (hlexed : Lexed p.items) (h : (paren opening p).result? = some ((e, span), rest)) :
    ∃ closing, closing.kind = .closeParen ∧
      Denotes .sum p.items e (closing :: rest.items) := by
  obtain ⟨ahead, q, after, closing, hpeek, hsum, hclose, hclosing, -⟩ := paren_eq_some h
  have hsize := size_peek hpeek
  have henter := size_enter q
  have hpeeked := items_peek hpeek
  have hq : q.enter.items = p.items := hpeeked
  have hinner := denotes_of_sum (hq ▸ hlexed) hsum
  have hleft := items_next hclose
  have hafter : after.items = closing :: rest.items := hleft
  rw [hq, hafter] at hinner
  exact ⟨closing, hclosing, hinner⟩
termination_by 6 * p.size + 5
decreasing_by all_goals simp only [size] at *; omega

end

/-! ## What is derivable is read -/

theorem exists_skipPlus_of_add {p : Parser} {sign : Token} {ts : List Token}
    (h : p.items = sign :: ts) (hsign : sign.kind = .add) :
    ∃ q, p.skipPlus = (.ok (), q) ∧ q.items = ts := by
  obtain ⟨q, hnext, hq⟩ := exists_next h (by simp [hsign])
  exact ⟨q, by simp [skipPlus, hnext, hsign], hq⟩

theorem exists_skipPlus_of_ne {p : Parser} {tok : Token} {ts : List Token}
    (h : p.items = tok :: ts) (hsymbol : tok.kind ≠ .symbol) (hadd : tok.kind ≠ .add) :
    ∃ q, p.skipPlus = (.ok (), q) ∧ q.items = p.items := by
  obtain ⟨q, hnext, -⟩ := exists_next h hsymbol
  exact ⟨q.pushBack tok, by simp [skipPlus, hnext, hadd], items_pushBack hnext⟩

/-- The reader of the part reads the expression and leaves the second parser. -/
def Reads : Part → Parser → Expr → Parser → Prop
  | .operand, p, e, q => ∃ span, p.operand.result? = some ((e, span), q)
  | .product, p, e, q => ∃ span, p.product.result? = some ((e, span), q)
  | .sum, p, e, q => p.sum.result? = some (e, q)
  | .after .additive lhs, p, e, q => (sumAfter lhs.canon p).result? = some (e, q)
  | .after .multiplicative lhs, p, e, q => ∀ span, ∃ span',
      (productAfter lhs.canon span p).result? = some ((e, span'), q)

namespace Reads

theorem int {p q : Parser} {tok : Token} (hnext : p.next = (.ok (some tok), q))
    (hkind : tok.kind = .int) (hread : Integer.read tok.lexeme = .ok tok.decimal) :
    Reads .operand p (.number tok.decimal) q := by
  refine ⟨tok.span, ?_⟩
  rw [result?_operand, hnext]
  simp [hkind, hread]

theorem paren {p q q' r s : Parser} {opening closing : Token} {ahead : Option Token}
    {e : Expr} (hnext : p.next = (.ok (some opening), q))
    (hopening : opening.kind = .openParen) (hpeek : q.peek = (.ok ahead, q'))
    (hahead : ∀ tok ∈ ahead, tok.kind ≠ .closeParen) (hsum : Reads .sum q'.enter e r)
    (hclose : r.leave.next = (.ok (some closing), s))
    (hclosing : closing.kind = .closeParen) : Reads .operand p e s := by
  have hnone : ahead.filter (fun tok => decide (tok.kind = .closeParen)) = none := by
    rw [Option.filter_eq_none_iff]
    exact fun tok htok => by simpa using hahead tok htok
  have hinner : q'.enter.sum.result? = some (e, r) := hsum
  refine ⟨⟨opening.span.start, closing.span.stop⟩, ?_⟩
  rw [result?_operand, hnext]
  simp only [hopening]
  rw [result?_paren, hpeek]
  simp only [hnone, Option.isSome_none, Bool.false_eq_true, if_false]
  rw [hinner, Option.bind_some]
  simp only [hclose, hclosing, if_true]

theorem product {p q r : Parser} {t : Tree} {e : Expr}
    (hfirst : Reads .operand p t.canon q)
    (hafter : Reads (.after .multiplicative t) q e r) : Reads .product p e r := by
  obtain ⟨span, hoperand⟩ := hfirst
  obtain ⟨span', hrest⟩ := hafter span
  refine ⟨span', ?_⟩
  rw [result?_product, hoperand, Option.bind_some]
  exact hrest

theorem sum {p q r s : Parser} {t : Tree} {e : Expr} (hskip : p.skipPlus = (.ok (), q))
    (hfirst : Reads .product q t.canon r) (hafter : Reads (.after .additive t) r e s) :
    Reads .sum p e s := by
  obtain ⟨span, hproduct⟩ := hfirst
  have hsum : p.sum.result? = some (e, s) := by
    rw [result?_sum, hskip]
    dsimp only
    rw [hproduct, Option.bind_some]
    exact hafter
  exact hsum

theorem stop {cls : OpClass} {lhs : Tree} {p : Parser} {tok : Token} {q : Parser}
    (hnext : p.next = (.ok (some tok), q)) (hfollow : cls.follow tok.kind = true) :
    Reads (.after cls lhs) p lhs.canon (q.pushBack tok) := by
  have hdirection := direction?_of_follow hfollow
  cases cls with
  | additive =>
    have hkind : tok.kind = .closeParen := by simpa [OpClass.follow] using hfollow
    have hsum : (sumAfter lhs.canon p).result? = some (lhs.canon, q.pushBack tok) := by
      rw [result?_sumAfter, hnext]
      simp only [hdirection]
      simp [hkind]
    exact hsum
  | multiplicative =>
    intro span
    refine ⟨span, ?_⟩
    rw [result?_productAfter, hnext]
    simp [hdirection]

theorem stop_of_end {cls : OpClass} {lhs : Tree} {p q : Parser}
    (hnext : p.next = (.ok none, q)) : Reads (.after cls lhs) p lhs.canon q := by
  cases cls with
  | additive =>
    have hsum : (sumAfter lhs.canon p).result? = some (lhs.canon, q) := by
      rw [result?_sumAfter, hnext]
    exact hsum
  | multiplicative =>
    intro span
    refine ⟨span, ?_⟩
    rw [result?_productAfter, hnext]

theorem more {cls : OpClass} {reverse : Bool} {sign : Token} {t u : Tree} {e : Expr}
    {p q r s : Parser} (hnext : p.next = (.ok (some sign), q))
    (hsign : sign.kind.direction? cls = some reverse)
    (hitem : Reads cls.item q u.canon r)
    (hvalue : (Tree.node cls reverse t u).eval.isSome)
    (hafter : Reads (.after cls (.node cls reverse t u)) r e s) :
    Reads (.after cls t) p e s := by
  cases cls with
  | additive =>
    obtain ⟨span, hproduct⟩ := hitem
    have hsum : (sumAfter t.canon p).result? = some (e, s) := by
      rw [result?_sumAfter, hnext]
      simp only [hsign]
      rw [hproduct, Option.bind_some]
      exact hafter
    exact hsum
  | multiplicative =>
    obtain ⟨divisor, hoperand⟩ := hitem
    obtain ⟨v, hv⟩ := Option.isSome_iff_exists.1 hvalue
    have hjoined : (t.canon.join .multiplicative u.canon reverse).value = some v :=
      Tree.value_canon hv
    intro span
    obtain ⟨span', hrest⟩ := hafter ⟨span.start, divisor.stop⟩
    refine ⟨span', ?_⟩
    rw [result?_productAfter, hnext]
    simp only [hsign]
    rw [hoperand, Option.bind_some, hjoined]
    exact hrest

end Reads

/-- The readers take everything that is derivable and has a value, if something
follows that can follow. -/
theorem exists_reads {part : Part} {ts rest : List Token} {t : Tree}
    (h : Derives part ts t rest) (hlexed : Lexed ts) (hvalue : t.eval.isSome)
    (hfollows : part.Follows rest) {p : Parser} (hp : p.items = ts) :
    ∃ q, q.items = rest ∧ Reads part p t.canon q := by
  induction h generalizing p with
  | @int tok rest hkind =>
    obtain ⟨q, hnext, hq⟩ := exists_next hp (by simp [hkind])
    have hread := Reads.int hnext hkind (hlexed tok List.mem_cons_self hkind)
    exact ⟨q, hq, hread⟩
  | @paren opening closing ts rest t hopening hsum hclosing ih =>
    obtain ⟨q, hnext, hq⟩ := exists_next hp (by simp [hopening])
    obtain ⟨tok, us, hts, hkind⟩ := hsum.head_of_sum
    have hsymbol : tok.kind ≠ .symbol := by
      rcases hkind with hk | hk | hk <;> simp [hk]
    obtain ⟨q', hpeek⟩ := exists_peek (hq.trans hts) hsymbol
    have hpeeked := items_peek hpeek
    have hq' : q'.enter.items = ts := hpeeked.trans hq
    obtain ⟨r, hr, hread⟩ := ih hlexed.of_cons hvalue
      (Part.follows_cons (by rw [hclosing]; rfl)) hq'
    have hleave : r.leave.items = closing :: rest := hr
    obtain ⟨s, hclose, hs⟩ := exists_next hleave (by simp [hclosing])
    refine ⟨s, hs, .paren hnext hopening hpeek ?_ hread hclose hclosing⟩
    intro tok' htok'
    obtain rfl := Option.mem_some_iff.1 htok'
    rcases hkind with hk | hk | hk <;> simp [hk]
  | product hfirst hafter ihfirst ihafter =>
    have ht := hafter.isSome_eval_of_after hvalue rfl
    obtain ⟨q, hq, hread⟩ := ihfirst hlexed ht (fun _ _ => rfl) hp
    obtain ⟨r, hr, hread'⟩ := ihafter (hlexed.mono hfirst) hvalue hfollows hq
    exact ⟨r, hr, hread.product hread'⟩
  | sum hfirst hafter ihfirst ihafter =>
    obtain ⟨tok, us, hts, hkind⟩ := hfirst.head_of_product
    have hsymbol : tok.kind ≠ .symbol := by rcases hkind with hk | hk <;> simp [hk]
    have hadd : tok.kind ≠ .add := by rcases hkind with hk | hk <;> simp [hk]
    obtain ⟨p', hskip, hp'⟩ := exists_skipPlus_of_ne (hp.trans hts) hsymbol hadd
    have ht := hafter.isSome_eval_of_after hvalue rfl
    obtain ⟨q, hq, hread⟩ :=
      ihfirst hlexed ht (hafter.follows_item hfollows) (hp'.trans hp)
    obtain ⟨r, hr, hread'⟩ := ihafter (hlexed.mono hfirst) hvalue hfollows hq
    exact ⟨r, hr, .sum hskip hread hread'⟩
  | plus hsign hfirst hafter ihfirst ihafter =>
    obtain ⟨p', hskip, hp'⟩ := exists_skipPlus_of_add hp hsign
    have ht := hafter.isSome_eval_of_after hvalue rfl
    obtain ⟨q, hq, hread⟩ :=
      ihfirst hlexed.of_cons ht (hafter.follows_item hfollows) hp'
    obtain ⟨r, hr, hread'⟩ := ihafter (hlexed.of_cons.mono hfirst) hvalue hfollows hq
    exact ⟨r, hr, .sum hskip hread hread'⟩
  | @stop cls ts t =>
    cases ts with
    | nil =>
      obtain ⟨q, hnext⟩ := exists_next_of_items_nil hp
      exact ⟨q, (items_next_none hnext).2, .stop_of_end hnext⟩
    | cons tok ts =>
      have hfollow : cls.follow tok.kind = true := hfollows tok rfl
      have hsymbol : tok.kind ≠ .symbol := by
        intro hsymbol
        rw [hsymbol] at hfollow
        cases cls <;> simp [OpClass.follow] at hfollow
      obtain ⟨q, hnext, -⟩ := exists_next hp hsymbol
      exact ⟨q.pushBack tok, (items_pushBack hnext).trans hp, .stop hnext hfollow⟩
  | @more cls reverse sign ts us rest t u v hsign hitem hafter ihitem ihafter =>
    obtain ⟨p', hnext, hp'⟩ := exists_next hp (ne_symbol_of_direction? hsign)
    have hnode := hafter.isSome_eval_of_after hvalue rfl
    obtain ⟨x, hx⟩ := Option.isSome_iff_exists.1 hnode
    obtain ⟨-, w, -, hw, -⟩ := Tree.eval_node_eq_some.1 hx
    obtain ⟨q, hq, hread⟩ := ihitem hlexed.of_cons (by rw [hw]; rfl)
      (hafter.follows_item hfollows) hp'
    obtain ⟨r, hr, hread'⟩ := ihafter (hlexed.of_cons.mono hitem) hvalue hfollows hq
    exact ⟨r, hr, .more hnext hsign hread hnode hread'⟩

end Parser

/-! ## Whole texts -/

namespace Expr

theorem parse_eq_ok {text : String} {e : Expr} :
    parse text = .ok e ↔ ∃ q r, (Parser.ofSource text).sum.result? = some (e, q) ∧
      q.next = (.ok none, r) := by
  unfold parse Parser.full
  cases (Parser.ofSource text).sum with
  | fail error q => simp [Step.result?]
  | done first q hshorter =>
    rcases hnext : q.next with ⟨_ | _ | tok, r⟩
    · simp [hnext]
    · simp [hnext]
    · simp [hnext]

/-- What is parsed is derivable, and its tree has a value. -/
theorem denotes_of_parse {text : String} {e : Expr} (h : parse text = .ok e) :
    Denotes .sum (visibleTokens text) e [] := by
  obtain ⟨q, r, hsum, hnext⟩ := parse_eq_ok.1 h
  have hlexed : Lexed (Parser.ofSource text).items := lexed_visibleTokens text
  have hdenotes := Parser.denotes_of_sum hlexed hsum
  rw [(Parser.items_next_none hnext).1] at hdenotes
  exact hdenotes

/-- What is derivable parses if its tree has a value. -/
theorem parse_of_derives {text : String} {t : Tree}
    (h : Derives .sum (visibleTokens text) t []) (hvalue : t.eval.isSome) :
    parse text = .ok t.canon := by
  obtain ⟨q, hq, hread⟩ := Parser.exists_reads h (lexed_visibleTokens text) hvalue
    (Part.follows_nil .sum) (p := Parser.ofSource text) rfl
  have hsum : (Parser.ofSource text).sum.result? = some (t.canon, q) := hread
  obtain ⟨r, hnext⟩ := Parser.exists_next_of_items_nil hq
  exact parse_eq_ok.2 ⟨q, r, hsum, hnext⟩

/-- A text has at most one tree, and it parses exactly if it has no invalid
character and is derivable, and its tree never divides by zero.  It then gives
the canonical expression of the tree, with the value of the tree. -/
theorem parse_eq_ok_iff_derives (text : String) :
    (∀ t u, Derives .sum (visibleTokens text) t [] →
      Derives .sum (visibleTokens text) u [] → t = u) ∧
    ∀ e, parse text = .ok e ↔
      (∀ tok ∈ visibleTokens text, tok.kind ≠ .symbol) ∧
      ∃ t, Derives .sum (visibleTokens text) t [] ∧ e = t.canon ∧
        ∃ v, t.eval = some v ∧ e.value = some v := by
  have hend := Part.follows_nil .sum
  refine ⟨fun t u ht hu => (ht.unique hend hu hend).1, fun e => ?_⟩
  constructor
  · intro h
    obtain ⟨t, ht, rfl, hvalue⟩ := denotes_of_parse h
    obtain ⟨v, hv⟩ := Option.isSome_iff_exists.1 hvalue
    obtain ⟨front, hfront, hvalid⟩ := ht.taken
    rw [List.append_nil] at hfront
    exact ⟨hfront ▸ hvalid, t, ht, rfl, v, hv, Tree.value_canon hv⟩
  · intro h
    obtain ⟨-, t, ht, rfl, v, hv, -⟩ := h
    exact parse_of_derives ht (by rw [hv]; rfl)

theorem parse_six_over_difference :
    ∃ t, Derives .sum (visibleTokens "6 / (5 - 3)") t [] ∧
      (∀ u, Derives .sum (visibleTokens "6 / (5 - 3)") u [] → u = t) ∧
      parse "6 / (5 - 3)" = .ok t.canon ∧ t.eval = some 3 := by
  have htokens : visibleTokens "6 / (5 - 3)" =
      [⟨.int, "6", 0, 1⟩, ⟨.div, "/", 2, 3⟩, ⟨.openParen, "(", 4, 5⟩, ⟨.int, "5", 5, 6⟩,
        ⟨.sub, "-", 7, 8⟩, ⟨.int, "3", 9, 10⟩, ⟨.closeParen, ")", 10, 11⟩] := by
    decide +kernel
  have hderives : ∃ t, Derives .sum (visibleTokens "6 / (5 - 3)") t [] ∧
      t.eval = some 3 := by
    rw [htokens]
    refine ⟨_, .sum (.product (.int rfl) (.more rfl (.paren rfl (.sum
      (.product (.int rfl) .stop) (.more rfl (.product (.int rfl) .stop) .stop)) rfl)
      .stop)) .stop, ?_⟩
    decide +kernel
  obtain ⟨t, ht, hvalue⟩ := hderives
  obtain ⟨hunique, hparse⟩ := parse_eq_ok_iff_derives "6 / (5 - 3)"
  have hvalid : ∀ tok ∈ visibleTokens "6 / (5 - 3)", tok.kind ≠ .symbol := by
    rw [htokens]
    decide
  refine ⟨t, ht, fun u hu => hunique u t hu ht, ?_, hvalue⟩
  exact (hparse t.canon).2 ⟨hvalid, t, ht, rfl, 3, hvalue, Tree.value_canon hvalue⟩

end Expr

end TwentyFour
