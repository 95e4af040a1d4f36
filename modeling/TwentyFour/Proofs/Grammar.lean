import TwentyFour.Expr.Parser
import TwentyFour.Proofs.Lexing
import TwentyFour.Proofs.Tree

/-!
# The grammar of written expressions

The grammar is a relation between tokens and literal trees, and knows nothing of
how a text is read.

    Sum     ::= ['+'] Product (('+' | '-') Product)*
    Product ::= Operand (('×' | '*' | '÷' | '/') Operand)*
    Operand ::= Int | '(' Sum ')'

* `Derives part ts t rest` says that the tokens of `ts` in front of `rest` are
  derivable from `part`, with the tree `t`.  The repetitions are the part
  `after`, which carries the tree so far, so trees are left-associative.
* `Part.follow` is what may come behind a part.  `Derives.unique` says that
  tokens have at most one tree, and at most one derivable front.
* `Derives.taken` says that what is derived is a front of the tokens, and has no
  invalid character in it.
-/

namespace TwentyFour

/-- The parts of a written expression.  The part `after` is the repetition that
continues a sum or product whose tree is `lhs` so far. -/
inductive Part where
  | operand
  | product
  | sum
  | after (cls : OpClass) (lhs : Tree)

/-- What the signs of a class stand between. -/
def OpClass.item : OpClass → Part
  | .multiplicative => .operand
  | .additive => .product

/-- What is made of items of a class, with its signs between them. -/
def OpClass.whole : OpClass → Part
  | .multiplicative => .product
  | .additive => .sum

/-- The tokens of the first list that come before the second list are derivable
from the part, and this is their literal tree. -/
inductive Derives : Part → List Token → Tree → List Token → Prop where
  | int {tok : Token} {rest : List Token} (hkind : tok.kind = .int) :
      Derives .operand (tok :: rest) (.leaf tok.decimal) rest
  | paren {opening closing : Token} {ts rest : List Token} {t : Tree}
      (hopening : opening.kind = .openParen)
      (hsum : Derives .sum ts t (closing :: rest))
      (hclosing : closing.kind = .closeParen) : Derives .operand (opening :: ts) t rest
  | product {ts us rest : List Token} {t u : Tree} (hfirst : Derives .operand ts t us)
      (hafter : Derives (.after .multiplicative t) us u rest) :
      Derives .product ts u rest
  | sum {ts us rest : List Token} {t u : Tree} (hfirst : Derives .product ts t us)
      (hafter : Derives (.after .additive t) us u rest) : Derives .sum ts u rest
  | plus {sign : Token} {ts us rest : List Token} {t u : Tree}
      (hsign : sign.kind = .add) (hfirst : Derives .product ts t us)
      (hafter : Derives (.after .additive t) us u rest) :
      Derives .sum (sign :: ts) u rest
  | stop {cls : OpClass} {ts : List Token} {t : Tree} :
      Derives (.after cls t) ts t ts
  | more {cls : OpClass} {reverse : Bool} {sign : Token} {ts us rest : List Token}
      {t u v : Tree} (hsign : sign.kind.direction? cls = some reverse)
      (hitem : Derives cls.item ts u us)
      (hafter : Derives (.after cls (.node cls reverse t u)) us v rest) :
      Derives (.after cls t) (sign :: ts) v rest

/-! ## What may follow -/

/-- The kinds of the tokens that can come behind a compound of the class. -/
def OpClass.follow : OpClass → Kind → Bool
  | .multiplicative, k => k = .add || k = .sub || k = .closeParen
  | .additive, k => k = .closeParen

/-- The kinds of the tokens that can come behind a part. -/
def Part.follow : Part → Kind → Bool
  | .operand, _ => true
  | .product, k => OpClass.follow .multiplicative k
  | .sum, k => OpClass.follow .additive k
  | .after cls _, k => cls.follow k

/-- The tokens end, or go on with one that can come behind the part. -/
def Part.Follows (part : Part) (ts : List Token) : Prop :=
  ∀ tok ∈ ts.head?, part.follow tok.kind = true

theorem Part.follows_nil (part : Part) : part.Follows [] := by
  intro tok htok
  simp at htok

theorem Part.follows_cons {part : Part} {tok : Token} {ts : List Token}
    (h : part.follow tok.kind = true) : part.Follows (tok :: ts) := by
  intro tok' htok'
  rw [List.head?_cons, Option.mem_some_iff] at htok'
  rw [← htok']
  exact h

theorem direction?_of_follow {cls : OpClass} {k : Kind} (h : cls.follow k = true) :
    k.direction? cls = none := by
  cases cls <;> cases k <;> simp_all [OpClass.follow, Kind.direction?]

theorem follow_item_of_direction? {cls : OpClass} {reverse : Bool} {k : Kind}
    (h : k.direction? cls = some reverse) : cls.item.follow k = true := by
  cases cls <;> cases k <;>
    simp_all [OpClass.item, Part.follow, OpClass.follow, Kind.direction?]

theorem ne_symbol_of_direction? {cls : OpClass} {reverse : Bool} {k : Kind}
    (h : k.direction? cls = some reverse) : k ≠ .symbol := by
  intro hsymbol
  rw [hsymbol] at h
  simp [Kind.direction?] at h

theorem follow_item_of_follow {cls : OpClass} {k : Kind} (h : cls.follow k = true) :
    cls.item.follow k = true := by
  cases cls <;> cases k <;> simp_all [OpClass.item, Part.follow, OpClass.follow]

namespace Derives

theorem whole {cls : OpClass} {ts us rest : List Token} {t u : Tree}
    (hfirst : Derives cls.item ts t us) (hafter : Derives (.after cls t) us u rest) :
    Derives cls.whole ts u rest := by
  cases cls with
  | multiplicative => exact .product hfirst hafter
  | additive => exact .sum hfirst hafter

/-- What follows an item is a sign of the class or what follows the compound. -/
theorem follows_item {cls : OpClass} {lhs t : Tree} {ts rest : List Token}
    (h : Derives (.after cls lhs) ts t rest)
    (hrest : (Part.after cls lhs).Follows rest) : cls.item.Follows ts := by
  cases h with
  | stop => exact fun tok htok => follow_item_of_follow (hrest tok htok)
  | more hsign _ _ => exact Part.follows_cons (follow_item_of_direction? hsign)

/-! ## The first token -/

theorem head_of_product {ts rest : List Token} {t : Tree}
    (h : Derives .product ts t rest) :
    ∃ tok us, ts = tok :: us ∧ (tok.kind = .int ∨ tok.kind = .openParen) := by
  cases h with
  | product hfirst _ =>
    cases hfirst with
    | int hkind => exact ⟨_, _, rfl, .inl hkind⟩
    | paren hopening _ _ => exact ⟨_, _, rfl, .inr hopening⟩

theorem head_of_sum {ts rest : List Token} {t : Tree} (h : Derives .sum ts t rest) :
    ∃ tok us, ts = tok :: us ∧
      (tok.kind = .add ∨ tok.kind = .int ∨ tok.kind = .openParen) := by
  cases h with
  | sum hfirst _ =>
    obtain ⟨tok, us, hts, hkind⟩ := head_of_product hfirst
    exact ⟨tok, us, hts, .inr hkind⟩
  | plus hsign _ _ => exact ⟨_, _, rfl, .inl hsign⟩

/-! ## At most one tree -/

/-- Tokens have at most one tree, and at most one front that has it. -/
theorem unique {part : Part} {ts rest rest' : List Token} {t t' : Tree}
    (h : Derives part ts t rest) (hrest : part.Follows rest)
    (h' : Derives part ts t' rest') (hrest' : part.Follows rest') :
    t = t' ∧ rest = rest' := by
  induction h generalizing t' rest' with
  | int hkind =>
    cases h' with
    | int _ => exact ⟨rfl, rfl⟩
    | paren hopening _ _ => simp [hkind] at hopening
  | paren hopening _ hclosing ih =>
    cases h' with
    | int hkind => simp [hopening] at hkind
    | paren _ hsum' hclosing' =>
      have hclose : Part.sum.follow .closeParen = true := rfl
      obtain ⟨ht, hcons⟩ := ih (Part.follows_cons (hclosing ▸ hclose)) hsum'
        (Part.follows_cons (hclosing' ▸ hclose))
      exact ⟨ht, (List.cons.inj hcons).2⟩
  | product _ _ ihfirst ihafter =>
    cases h' with
    | product hfirst' hafter' =>
      have hany : ∀ us, Part.operand.Follows us := fun _ _ _ => rfl
      obtain ⟨rfl, rfl⟩ := ihfirst (hany _) hfirst' (hany _)
      exact ihafter hrest hafter' hrest'
  | sum hfirst hafter ihfirst ihafter =>
    cases h' with
    | sum hfirst' hafter' =>
      obtain ⟨rfl, rfl⟩ := ihfirst (hafter.follows_item hrest) hfirst'
        (hafter'.follows_item hrest')
      exact ihafter hrest hafter' hrest'
    | plus hsign _ _ =>
      obtain ⟨tok, us, hts, hkind⟩ := head_of_product hfirst
      rw [(List.cons.inj hts).1] at hsign
      simp [hsign] at hkind
  | plus hsign hfirst hafter ihfirst ihafter =>
    cases h' with
    | sum hfirst' _ =>
      obtain ⟨tok, us, hts, hkind⟩ := head_of_product hfirst'
      rw [(List.cons.inj hts).1] at hsign
      simp [hsign] at hkind
    | plus _ hfirst' hafter' =>
      obtain ⟨rfl, rfl⟩ := ihfirst (hafter.follows_item hrest) hfirst'
        (hafter'.follows_item hrest')
      exact ihafter hrest hafter' hrest'
  | stop =>
    cases h' with
    | stop => exact ⟨rfl, rfl⟩
    | more hsign _ _ =>
      have hnone := direction?_of_follow (hrest _ rfl)
      rw [hsign] at hnone
      simp at hnone
  | more hsign _ hafter ihitem ihafter =>
    cases h' with
    | stop =>
      have hnone := direction?_of_follow (hrest' _ rfl)
      rw [hsign] at hnone
      simp at hnone
    | more hsign' hitem' hafter' =>
      rw [hsign, Option.some.injEq] at hsign'
      subst hsign'
      obtain ⟨rfl, rfl⟩ := ihitem (hafter.follows_item hrest) hitem'
        (hafter'.follows_item hrest')
      exact ihafter hrest hafter' hrest'

end Derives

/-! ## What is taken, and what has a value -/

/-- The second list is the first behind a front without an invalid character. -/
def Taken (ts rest : List Token) : Prop :=
  ∃ front, ts = front ++ rest ∧ ∀ tok ∈ front, tok.kind ≠ .symbol

namespace Taken

theorem refl (ts : List Token) : Taken ts ts :=
  ⟨[], rfl, by simp⟩

theorem cons {tok : Token} {ts rest : List Token} (hkind : tok.kind ≠ .symbol)
    (h : Taken ts rest) : Taken (tok :: ts) rest := by
  obtain ⟨front, rfl, hfront⟩ := h
  exact ⟨tok :: front, rfl, List.forall_mem_cons.2 ⟨hkind, hfront⟩⟩

theorem trans {ts us rest : List Token} (h : Taken ts us) (h' : Taken us rest) :
    Taken ts rest := by
  obtain ⟨front, rfl, hfront⟩ := h
  obtain ⟨back, rfl, hback⟩ := h'
  refine ⟨front ++ back, by rw [List.append_assoc], fun tok htok => ?_⟩
  exact (List.mem_append.1 htok).elim (hfront tok) (hback tok)

theorem subset {ts rest : List Token} (h : Taken ts rest) : rest ⊆ ts := by
  obtain ⟨front, rfl, -⟩ := h
  exact List.subset_append_right front rest

end Taken

namespace Derives

/-- What is derived is a front of the tokens, without an invalid character. -/
theorem taken {part : Part} {ts rest : List Token} {t : Tree}
    (h : Derives part ts t rest) : Taken ts rest := by
  induction h with
  | int hkind => exact .cons (by simp [hkind]) (.refl _)
  | paren hopening _ hclosing ih =>
    have hclosed : Taken _ _ := ih.trans (.cons (by simp [hclosing]) (.refl _))
    exact .cons (by simp [hopening]) hclosed
  | product _ _ ihfirst ihafter | sum _ _ ihfirst ihafter =>
    exact ihfirst.trans ihafter
  | plus hsign _ _ ihfirst ihafter =>
    exact .cons (by simp [hsign]) (ihfirst.trans ihafter)
  | stop => exact .refl _
  | more hsign _ _ ihitem ihafter =>
    exact .cons (ne_symbol_of_direction? hsign) (ihitem.trans ihafter)

/-- A tree has a value only if what it continues has one. -/
theorem isSome_eval_of_after {part : Part} {ts rest : List Token} {t : Tree}
    (h : Derives part ts t rest) (ht : t.eval.isSome) :
    ∀ {cls : OpClass} {lhs : Tree}, part = .after cls lhs → lhs.eval.isSome := by
  intro cls lhs hpart
  induction h generalizing cls lhs with
  | int | paren | product | sum | plus => simp at hpart
  | stop =>
    obtain ⟨rfl, rfl⟩ := Part.after.inj hpart
    exact ht
  | more _ _ _ _ ihafter =>
    obtain ⟨rfl, rfl⟩ := Part.after.inj hpart
    obtain ⟨x, hx⟩ := Option.isSome_iff_exists.1 (ihafter ht rfl)
    obtain ⟨v, w, hv, -, -⟩ := Tree.eval_node_eq_some.1 hx
    rw [hv]
    rfl

end Derives

end TwentyFour
