import TwentyFour.Expr.Text
import TwentyFour.Proofs.Reading
import TwentyFour.Proofs.Search

/-!
# Printing and parsing

Parsing the text of an expression gives the expression back.

* `Spells part text t` says that wherever the text stands in front of something
  that is no digit, its tokens are derivable from the part with the tree `t`.
  There is one lemma for each rule of the grammar.
* `spells_render` says that the text of a canonical expression spells its tree.
  An operand gets parentheses exactly where the grammar asks for them.
* `parse_of_visibleWords` reads the expression back from its text, with any blanks
  put in; `parse_render` is the round trip of one expression, and
  `parse_render_of_built` names the expressions that it holds of.
-/

namespace TwentyFour

/-! ## Text in front of more text -/

theorem noDigit_nil : NoDigit [] := by
  intro c hc
  simp at hc

theorem noDigit_cons {c : Char} (h : Kind.ofChar c ≠ .int) (cs : List Char) :
    NoDigit (c :: cs) := by
  intro c' hc'
  rw [List.head?_cons, Option.mem_some_iff] at hc'
  exact hc' ▸ h

theorem NoDigit.append {cs ds : List Char} (hcs : NoDigit cs) (hds : NoDigit ds) :
    NoDigit (cs ++ ds) := by
  cases cs with
  | nil => exact hds
  | cons c cs => exact noDigit_cons (hcs c rfl) _

theorem exists_token_of_map_word {ts : List Token} {kind : Kind} {ds : List Char}
    {ws : List (Kind × List Char)} (h : ts.map Token.word = (kind, ds) :: ws) :
    ∃ tok rest, ts = tok :: rest ∧ tok.kind = kind ∧ tok.lexeme.toList = ds ∧
      rest.map Token.word = ws := by
  obtain ⟨tok, rest, rfl, hword, hrest⟩ := List.map_eq_cons_iff.1 h
  obtain ⟨hkind, hlexeme⟩ := Prod.mk.inj hword
  exact ⟨tok, rest, rfl, hkind, hlexeme, hrest⟩

/-- Wherever the text stands in front of something that is no digit, its tokens
are derivable from the part and this is their tree. -/
def Spells (part : Part) (text : List Char) (t : Tree) : Prop :=
  ∀ ⦃cs : List Char⦄ ⦃ts : List Token⦄, NoDigit cs →
    ts.map Token.word = visibleWords (text ++ cs) →
    ∃ rest, rest.map Token.word = visibleWords cs ∧ Derives part ts t rest

namespace Spells

theorem number (n : Nat) : Spells .operand (Nat.toDigits 10 n) (.leaf n) := by
  intro cs ts hcs hts
  have hdigits : ∀ d ∈ Nat.toDigits 10 n, Kind.ofChar d = .int := fun d hd =>
    ofChar_of_isDigit (Nat.isDigit_of_mem_toDigits (by omega) (by omega) hd)
  rw [visibleWords_digits Nat.toDigits_ne_nil hdigits hcs] at hts
  obtain ⟨tok, rest, rfl, hkind, hlexeme, hrest⟩ := exists_token_of_map_word hts
  have hdecimal : tok.decimal = n := by
    rw [Token.decimal, hlexeme, Nat.ofDigitChars_ten_toDigits]
  exact ⟨rest, hrest, hdecimal ▸ .int hkind⟩

theorem paren {text : List Char} {t : Tree} (h : Spells .sum text t) :
    Spells .operand ('(' :: (text ++ [')'])) t := by
  intro cs ts hcs hts
  have hopen : visibleWords ('(' :: (text ++ [')']) ++ cs) =
      (.openParen, ['(']) :: visibleWords (text ++ (')' :: cs)) := by
    rw [List.cons_append, List.append_assoc, List.singleton_append]
    exact visibleWords_single (c := '(') rfl _
  have hclose : visibleWords (')' :: cs) = (.closeParen, [')']) :: visibleWords cs :=
    visibleWords_single (c := ')') rfl cs
  rw [hopen] at hts
  obtain ⟨opening, us, rfl, hopening, -, hus⟩ := exists_token_of_map_word hts
  obtain ⟨vs, hvs, hsum⟩ := h (noDigit_cons (by decide) cs) hus
  rw [hclose] at hvs
  obtain ⟨closing, rest, rfl, hclosing, -, hrest⟩ := exists_token_of_map_word hvs
  exact ⟨rest, hrest, .paren hopening hsum hclosing⟩

theorem whole {cls : OpClass} {a b : List Char} {t u : Tree}
    (hfirst : Spells cls.item a t) (hb : NoDigit b)
    (hafter : Spells (.after cls t) b u) : Spells cls.whole (a ++ b) u := by
  intro cs ts hcs hts
  rw [List.append_assoc] at hts
  obtain ⟨us, hus, hfirst'⟩ := hfirst (hb.append hcs) hts
  obtain ⟨rest, hrest, hafter'⟩ := hafter hcs hus
  exact ⟨rest, hrest, hfirst'.whole hafter'⟩

theorem stop (cls : OpClass) (t : Tree) : Spells (.after cls t) [] t := by
  intro cs ts _ hts
  exact ⟨ts, hts, .stop⟩

theorem more {cls : OpClass} {reverse : Bool} {c : Char} {a b : List Char}
    {t u v : Tree}
    (hsign : (Kind.ofChar c).direction? cls = some reverse)
    (hitem : Spells cls.item a u) (hb : NoDigit b)
    (hafter : Spells (.after cls (.node cls reverse t u)) b v) :
    Spells (.after cls t) (' ' :: c :: ' ' :: (a ++ b)) v := by
  intro cs ts hcs hts
  have hrun : (Kind.ofChar c).isRun = false := by
    cases hkind : Kind.ofChar c <;> simp_all [Kind.isRun, Kind.direction?]
  have hwords : visibleWords (' ' :: c :: ' ' :: (a ++ b) ++ cs) =
      (Kind.ofChar c, [c]) :: visibleWords (a ++ (b ++ cs)) := by
    simp only [List.cons_append, List.append_assoc]
    rw [visibleWords_blank rfl, visibleWords_single hrun, visibleWords_blank rfl]
  rw [hwords] at hts
  obtain ⟨sign, us, rfl, hkind, -, hus⟩ := exists_token_of_map_word hts
  obtain ⟨vs, hvs, hitem'⟩ := hitem (hb.append hcs) hus
  obtain ⟨rest, hrest, hafter'⟩ := hafter hcs hvs
  exact ⟨rest, hrest, .more (hkind ▸ hsign) hitem' hafter'⟩

/-- An item alone is a whole. -/
theorem whole_of_item (cls : OpClass) {text : List Char} {t : Tree}
    (h : Spells cls.item text t) : Spells cls.whole text t := by
  have hwhole := h.whole noDigit_nil (stop cls t)
  rw [List.append_nil] at hwhole
  exact hwhole

end Spells

/-! ## The text of an expression -/

theorem exists_sign (glyphs : Glyphs) (cls : OpClass) (reverse : Bool) :
    ∃ c, (glyphs.operator cls reverse).toList = [c] ∧
      (Kind.ofChar c).direction? cls = some reverse := by
  cases glyphs <;> cases cls <;> cases reverse <;> exact ⟨_, rfl, rfl⟩

namespace Expr

/-- The part of the grammar that the text of an expression belongs to. -/
def part : Expr → Part
  | .number _ => .operand
  | .compound cls _ => cls.whole

theorem noDigit_renderOperands (glyphs : Glyphs) (cls : OpClass)
    (ops : List (Operand Expr)) :
    NoDigit (renderOperands glyphs cls false ops).toList := by
  cases ops with
  | nil =>
    rw [renderOperands]
    exact noDigit_nil
  | cons o rest =>
    have hblank : (" " : String).toList = [' '] := rfl
    rw [renderOperands, if_neg (by simp)]
    simp only [String.toList_append, hblank, List.cons_append]
    exact noDigit_cons (by decide) _

/-- The text of an operand, with its parentheses, spells what the grammar has
between two signs. -/
theorem spells_enclose {cls : OpClass} {e : Expr} {text : String}
    (h : Spells e.part text.toList e.toTree) (hflat : e.cls? ≠ some cls) :
    Spells cls.item (enclose cls e text).toList e.toTree := by
  cases cls with
  | multiplicative =>
    cases e with
    | number v => exact h
    | compound c ops =>
      cases c with
      | multiplicative => exact absurd rfl hflat
      | additive =>
        have henclose :
            (enclose .multiplicative (.compound .additive ops) text).toList =
              '(' :: (text.toList ++ [')']) := by
          simp [enclose, isNumber, String.toList_append]
        rw [henclose]
        exact Spells.paren h
  | additive =>
    cases e with
    | number v => exact Spells.whole_of_item .multiplicative h
    | compound c ops =>
      cases c with
      | multiplicative => exact h
      | additive => exact absurd rfl hflat

theorem spells_renderOperands {glyphs : Glyphs} {cls : OpClass}
    {ops : List (Operand Expr)}
    (h : ∀ o ∈ ops, Spells cls.item (enclose cls o.expr (o.expr.render glyphs)).toList
      o.expr.toTree) (t : Tree) :
    Spells (.after cls t) (renderOperands glyphs cls false ops).toList
      (treeFrom cls t ops) := by
  induction ops generalizing t with
  | nil =>
    rw [renderOperands, treeFrom]
    exact Spells.stop cls t
  | cons o rest ih =>
    obtain ⟨c, hc, hsign⟩ := exists_sign glyphs cls o.reverse
    have hrest := ih (fun p hp => h p (List.mem_cons_of_mem o hp))
      (.node cls o.reverse t o.expr.toTree)
    have hitem := h o List.mem_cons_self
    have hchars : (renderOperands glyphs cls false (o :: rest)).toList =
        ' ' :: c :: ' ' :: ((enclose cls o.expr (o.expr.render glyphs)).toList ++
          (renderOperands glyphs cls false rest).toList) := by
      rw [renderOperands, if_neg (by simp)]
      simp [String.toList_append, hc]
    rw [hchars, treeFrom]
    exact Spells.more hsign hitem (noDigit_renderOperands glyphs cls rest) hrest

theorem toList_render_natural (glyphs : Glyphs) (n : Nat) :
    ((number n).render glyphs).toList = Nat.toDigits 10 n := by
  rw [render, rationalText, if_pos (by simp)]
  simp [integerText, Nat.toList_repr]

/-- The text of a canonical expression over natural numbers spells its tree. -/
theorem spells_render {e : Expr} (he : e.Canonical) (glyphs : Glyphs)
    (hnatural : ∀ v ∈ e.numbers, ∃ n : Nat, v = n) :
    Spells e.part (e.render glyphs).toList e.toTree := by
  induction he with
  | number v =>
    obtain ⟨n, rfl⟩ := hnatural v (by simp [numbers])
    rw [toList_render_natural, toTree]
    exact Spells.number n
  | @compound cls ops hops hsub ih =>
    have hitem : ∀ o ∈ ops, Spells cls.item
        (enclose cls o.expr (o.expr.render glyphs)).toList o.expr.toTree := by
      intro o ho
      refine spells_enclose (ih o ho fun v hv => hnatural v ?_) (hops.flat o ho)
      rw [numbers, operandNumbers_eq_flatMap]
      exact List.mem_flatMap.2 ⟨o.expr, List.mem_map_of_mem ho, hv⟩
    rcases ops with _ | ⟨o, rest⟩
    · exact absurd hops.two_le (by simp)
    have hfirst := hitem o List.mem_cons_self
    have hafter := spells_renderOperands
      (fun p hp => hitem p (List.mem_cons_of_mem o hp)) o.expr.toTree
    have hnodigit := noDigit_renderOperands glyphs cls rest
    rw [render, renderOperands, toTree, if_pos rfl]
    simp only [String.toList_append]
    exact Spells.whole hfirst hnodigit hafter

/-- A text that differs from that of a canonical expression in blanks only parses
as the expression. -/
theorem parse_of_visibleWords {e : Expr} (he : e.Canonical) (hvalue : e.value.isSome)
    (hnatural : ∀ v ∈ e.numbers, ∃ n : Nat, v = n) {glyphs : Glyphs} {text : String}
    (htext : visibleWords text.toList = visibleWords (e.render glyphs).toList) :
    parse text = .ok e := by
  have hspells : Spells .sum (e.render glyphs).toList e.toTree := by
    have hrender := spells_render he glyphs hnatural
    cases e with
    | number v =>
      have hproduct := Spells.whole_of_item .multiplicative hrender
      exact Spells.whole_of_item .additive hproduct
    | compound cls ops =>
      cases cls with
      | multiplicative => exact Spells.whole_of_item .additive hrender
      | additive => exact hrender
  have hwords := map_word_visibleTokens text
  rw [htext, ← List.append_nil (e.render glyphs).toList] at hwords
  obtain ⟨rest, hrest, hderives⟩ := hspells noDigit_nil hwords
  have hnil : rest = [] := List.map_eq_nil_iff.1 hrest
  rw [hnil] at hderives
  have hparse := parse_of_derives hderives (by rw [eval_toTree he]; exact hvalue)
  rw [canon_toTree he] at hparse
  exact hparse

/-- Parsing the text of a canonical expression gives the expression. -/
theorem parse_render {e : Expr} (he : e.Canonical) (hvalue : e.value.isSome)
    (hnatural : ∀ v ∈ e.numbers, ∃ n : Nat, v = n) (glyphs : Glyphs) :
    parse (e.render glyphs) = .ok e :=
  parse_of_visibleWords he hvalue hnatural rfl

end Expr

/-! ## Expressions over natural numbers -/

/-- All leaves of the tree are natural numbers. -/
def Tree.Natural (t : Tree) : Prop :=
  ∀ v ∈ t.leaves, ∃ n : Nat, v = n

/-- The leaves of a derived tree are runs of digits. -/
theorem Derives.natural {part : Part} {ts rest : List Token} {t : Tree}
    (h : Derives part ts t rest) :
    (∀ {cls : OpClass} {lhs : Tree}, part = .after cls lhs → lhs.Natural) →
      t.Natural := by
  induction h with
  | @int tok rest hkind =>
    intro _ v hv
    exact ⟨tok.decimal, by simpa [Tree.leaves] using hv⟩
  | paren _ _ _ ih =>
    intro _
    exact ih fun hpart => absurd hpart (by simp)
  | product _ _ ihfirst ihafter | sum _ _ ihfirst ihafter | plus _ _ _ ihfirst ihafter =>
    intro _
    have hfirst := ihfirst fun hpart => absurd hpart (by simp)
    refine ihafter fun hpart => ?_
    rw [← (Part.after.inj hpart).2]
    exact hfirst
  | stop =>
    intro hlhs
    exact hlhs rfl
  | @more cls _ _ _ _ _ _ _ _ _ _ _ ihitem ihafter =>
    intro hlhs
    have hitem := ihitem fun hpart => by cases cls <;> simp [OpClass.item] at hpart
    refine ihafter fun hpart => ?_
    rw [← (Part.after.inj hpart).2]
    intro v hv
    rcases List.mem_append.1 hv with hv | hv
    · exact hlhs rfl v hv
    · exact hitem v hv

namespace Expr

/-- Printing and then parsing gives back everything that can be built from natural
numbers and has a value, all that a search finds and all that parses. -/
theorem parse_render_of_built :
    (∀ e : Expr, Built e → e.value.isSome → (∀ v ∈ e.leafValues, ∃ n : Nat, v = n) →
      ∀ glyphs, parse (e.render glyphs) = .ok e) ∧
    (∀ values target, ∀ e ∈ solve values target,
      ∀ glyphs, parse (e.render glyphs) = .ok e) ∧
    (∀ text e, parse text = .ok e → ∀ glyphs, parse (e.render glyphs) = .ok e) := by
  refine ⟨?_, ?_, ?_⟩
  · intro e he hvalue hnatural glyphs
    rw [leafValues_eq_numbers] at hnatural
    exact parse_render he.canonical hvalue hnatural glyphs
  · intro values target e he glyphs
    obtain ⟨hcanonical, hvalue, hnumbers⟩ := sound_of_mem_solve he
    refine parse_render hcanonical (by rw [hvalue]; rfl) (fun v hv => ?_) glyphs
    obtain ⟨n, -, hn⟩ := List.mem_map.1 (hnumbers.mem_iff.1 hv)
    exact ⟨n, hn.symm⟩
  · intro text e h glyphs
    obtain ⟨t, ht, rfl, hvalue⟩ := denotes_of_parse h
    obtain ⟨v, hv⟩ := Option.isSome_iff_exists.1 hvalue
    have hnatural : t.Natural := ht.natural fun hpart => absurd hpart (by simp)
    refine parse_render t.canonical_canon (by rw [Tree.value_canon hv]; rfl)
      (fun w hw => ?_) glyphs
    exact hnatural w (t.numbers_canon_perm.mem_iff.1 hw)

/-- The expression `8 ÷ (3 - 8 ÷ 3)`, which is 24. -/
def eightsAndThrees : Expr :=
  let quotient := (number 8).join .multiplicative (number 3) true
  (number 8).join .multiplicative ((number 3).join .additive quotient true) true

theorem parse_render_eightsAndThrees :
    Built eightsAndThrees ∧ eightsAndThrees.value.isSome ∧
      (∀ v ∈ eightsAndThrees.leafValues, ∃ n : Nat, v = n) ∧
      parse (eightsAndThrees.render .ascii) = .ok eightsAndThrees ∧
      parse (eightsAndThrees.render .unicode) = .ok eightsAndThrees ∧
      number 5 ∈ solve [5] 5 ∧ parse ((number 5).render .unicode) = .ok (number 5) := by
  have hquotient : Built ((number 8).join .multiplicative (number 3) true) :=
    .join (.number 8) (.number 3) .multiplicative true
  have hbuilt : Built eightsAndThrees :=
    .join (.number 8) (.join (.number 3) hquotient .additive true) .multiplicative true
  have hvalue : eightsAndThrees.value = some 24 := by decide +kernel
  have hnumbers : eightsAndThrees.numbers = [8, 3, 8, 3] := by decide +kernel
  have hnatural : ∀ v ∈ eightsAndThrees.leafValues, ∃ n : Nat, v = n := by
    rw [leafValues_eq_numbers, hnumbers]
    intro v hv
    simp only [List.mem_cons, List.not_mem_nil, or_false] at hv
    rcases hv with rfl | rfl | rfl | rfl
    · exact ⟨8, rfl⟩
    · exact ⟨3, rfl⟩
    · exact ⟨8, rfl⟩
    · exact ⟨3, rfl⟩
  have hsolve : number 5 ∈ solve [5] 5 := by
    refine mem_solve.2 ⟨by simp, by simp, State.ofValues [5], ?_, rfl⟩
    rw [lastRound_of_not_reducible (by decide)]
    exact List.mem_singleton_self _
  obtain ⟨hround, hfound, hparsed⟩ := parse_render_of_built
  have hascii := hround eightsAndThrees hbuilt (by rw [hvalue]; rfl) hnatural .ascii
  exact ⟨hbuilt, by rw [hvalue]; rfl, hnatural, hascii, hparsed _ _ hascii .unicode,
    hsolve, hfound [5] 5 _ hsolve .unicode⟩

end Expr

end TwentyFour
