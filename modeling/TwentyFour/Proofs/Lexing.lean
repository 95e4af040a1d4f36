import Mathlib.Data.List.Chain
import TwentyFour.Text.Integer
import TwentyFour.Token

/-!
# The visible words of a text

A word is a token without its place: a kind and the characters.  This module
says what the words of a text are, from the front of the text on.

* `Grouped` is the invariant of grouping: all characters of a group are of its kind,
  and no run goes on in the next group.  `grouped_runs` says that grouping keeps it, and
  `runs_flatten` that it leaves no other way to group the characters.
* `lexed_visibleTokens` says that every run of digits reads as the number it
  denotes.
* `visibleWords_blank`, `visibleWords_single` and `visibleWords_digits` give the
  words of a text that starts with a blank, with a sign, and with digits.
-/

namespace TwentyFour

/-! ## Groups of characters -/

theorem head?_runs (cs : List Char) :
    (runs cs).head?.map (·.1) = cs.head?.map Kind.ofChar := by
  cases cs with
  | nil => rfl
  | cons c cs =>
    rw [runs]
    unfold consRun
    split
    · rfl
    · split
      next hsame => simp_all
      · rfl

/-- A kind and characters of that kind; only a run can have more than one. -/
structure IsGroup (g : Kind × List Char) : Prop where
  ne_nil : g.2 ≠ []
  ofChar_eq : ∀ c ∈ g.2, Kind.ofChar c = g.1
  single : g.1.isRun = false → ∃ c, g.2 = [c]

/-- Groups of which no run goes on in the next one. -/
structure Grouped (gs : List (Kind × List Char)) : Prop where
  isGroup : ∀ g ∈ gs, IsGroup g
  apart : gs.IsChain fun g h => g.1.isRun = true → g.1 ≠ h.1

theorem isGroup_singleton (c : Char) : IsGroup (.ofChar c, [c]) :=
  ⟨List.cons_ne_nil _ _, by simp, fun _ => ⟨c, rfl⟩⟩

theorem IsGroup.cons {c : Char} {kind : Kind} {ds : List Char} (h : IsGroup (kind, ds))
    (hrun : kind.isRun = true) (hc : Kind.ofChar c = kind) : IsGroup (kind, c :: ds) :=
  ⟨List.cons_ne_nil _ _, List.forall_mem_cons.2 ⟨hc, h.ofChar_eq⟩, by simp [hrun]⟩

namespace Grouped

variable {g : Kind × List Char} {gs hs : List (Kind × List Char)}

theorem cons (hg : IsGroup g) (h : Grouped gs)
    (happart : ∀ g' ∈ gs.head?, g.1.isRun = true → g.1 ≠ g'.1) : Grouped (g :: gs) :=
  ⟨List.forall_mem_cons.2 ⟨hg, h.isGroup⟩, List.isChain_cons.2 ⟨happart, h.apart⟩⟩

theorem append_left (h : Grouped (gs ++ hs)) : Grouped gs :=
  ⟨fun g hg => h.isGroup g (List.mem_append_left hs hg), h.apart.left_of_append⟩

theorem append_right (h : Grouped (gs ++ hs)) : Grouped hs :=
  ⟨fun g hg => h.isGroup g (List.mem_append_right gs hg), h.apart.right_of_append⟩

end Grouped

theorem grouped_consRun {gs : List (Kind × List Char)} (h : Grouped gs) (c : Char) :
    Grouped (consRun c gs) := by
  unfold consRun
  split
  · exact .cons (isGroup_singleton c) h (by simp)
  next kind ds rest =>
    obtain ⟨hfirst, hrest⟩ := List.forall_mem_cons.1 h.isGroup
    split
    next hjoins =>
      simp only [Bool.and_eq_true, decide_eq_true_eq] at hjoins
      obtain ⟨happart, hchain⟩ := List.isChain_cons.1 h.apart
      exact .cons (hfirst.cons hjoins.1 hjoins.2.symm) ⟨hrest, hchain⟩ happart
    next hstarts =>
      refine .cons (isGroup_singleton c) h fun g' hg' hrun hkind => hstarts ?_
      obtain rfl := Option.some.inj hg'
      have heq : Kind.ofChar c = kind := hkind
      simp only [Bool.and_eq_true, decide_eq_true_eq]
      exact ⟨heq ▸ hrun, heq.symm⟩

theorem grouped_runs (cs : List Char) : Grouped (runs cs) := by
  induction cs with
  | nil => exact ⟨by simp [runs], .nil⟩
  | cons c cs ih => exact grouped_consRun ih c

/-- A group in front of a text that does not go on with it is a group of the whole. -/
theorem runs_append {kind : Kind} {ds cs : List Char}
    (h : Grouped ((kind, ds) :: runs cs)) : runs (ds ++ cs) = (kind, ds) :: runs cs := by
  obtain ⟨hgroup, -⟩ := List.forall_mem_cons.1 h.isGroup
  obtain ⟨happart, -⟩ := List.isChain_cons.1 h.apart
  obtain ⟨hne, hkind, hsingle⟩ := hgroup
  induction ds with
  | nil => exact absurd rfl hne
  | cons d ds ih =>
    obtain ⟨hd, hds⟩ := List.forall_mem_cons.1 hkind
    obtain rfl : Kind.ofChar d = kind := hd
    cases ds with
    | nil =>
      rw [List.singleton_append, runs]
      unfold consRun
      split
      next hnil => rw [hnil]
      next kind' es rest hruns =>
        rw [if_neg, hruns]
        intro hjoins
        simp only [Bool.and_eq_true, decide_eq_true_eq] at hjoins
        exact happart (kind', es) (by simp [hruns]) (hjoins.2 ▸ hjoins.1) hjoins.2.symm
    | cons d' ds =>
      have hrun : (Kind.ofChar d).isRun = true := by
        by_contra hrun
        obtain ⟨c, hc⟩ := hsingle (by simpa using hrun)
        simp at hc
      have hgroup : IsGroup (Kind.ofChar d, d' :: ds) :=
        ⟨List.cons_ne_nil _ _, hds, by simp [hrun]⟩
      have hrest := ih (.cons hgroup (grouped_runs cs) happart) happart
        hgroup.ne_nil hgroup.ofChar_eq hgroup.single
      rw [List.cons_append, runs, hrest, consRun, if_pos (by simp [hrun])]

/-- Groups are what cutting their characters gives. -/
theorem runs_flatten {gs : List (Kind × List Char)} (h : Grouped gs) :
    runs (gs.map (·.2)).flatten = gs := by
  induction gs with
  | nil => rfl
  | cons g gs ih =>
    have hall : Grouped ([g] ++ gs) := h
    have hrest : runs (gs.map (·.2)).flatten = gs := ih hall.append_right
    obtain ⟨kind, ds⟩ := g
    have hruns := runs_append (hrest.symm ▸ h)
    rwa [hrest] at hruns

/-- All characters of a group are of its kind, and no group is empty. -/
theorem kind_of_mem_runs {cs : List Char} {kind : Kind} {ds : List Char}
    (h : (kind, ds) ∈ runs cs) : ds ≠ [] ∧ ∀ d ∈ ds, Kind.ofChar d = kind := by
  have hgroup := (grouped_runs cs).isGroup _ h
  exact ⟨hgroup.ne_nil, hgroup.ofChar_eq⟩

theorem mem_runs_of_mem_placeFrom {start : Nat} {groups : List (Kind × List Char)}
    {tok : Token} (h : tok ∈ placeFrom start groups) :
    (tok.kind, tok.lexeme.toList) ∈ groups := by
  induction groups generalizing start with
  | nil => simp [placeFrom] at h
  | cons group rest ih =>
    rw [placeFrom] at h
    rcases List.mem_cons.1 h with rfl | h
    · simp
    · exact List.mem_cons_of_mem _ (ih h)

/-! ## Runs of digits -/

/-- The number that the digits of a token denote. -/
def Token.decimal (tok : Token) : Nat :=
  Nat.ofDigitChars 10 tok.lexeme.toList 0

/-- Every run of digits among the tokens reads as the number it denotes. -/
def Lexed (ts : List Token) : Prop :=
  ∀ tok ∈ ts, tok.kind = .int → Integer.read tok.lexeme = .ok tok.decimal

theorem isDigit_of_ofChar {c : Char} (h : Kind.ofChar c = .int) : c.isDigit = true := by
  by_cases hdigit : c.isDigit = true
  · exact hdigit
  · grind [Kind.ofChar]

theorem ofChar_of_isDigit {c : Char} (h : c.isDigit = true) : Kind.ofChar c = .int := by
  have hne : ∀ d : Char, d.isDigit = false → c ≠ d := by
    intro d hd heq
    rw [heq, hd] at h
    exact absurd h (by decide)
  simp [Kind.ofChar, h, hne ' ' rfl, hne '\t' rfl, hne '\n' rfl, hne '\r' rfl,
    hne '+' rfl, hne '-' rfl, hne '*' rfl, hne '×' rfl, hne '/' rfl, hne '÷' rfl,
    hne '(' rfl, hne ')' rfl]

theorem readFrom_digits {cs : List Char} (h : ∀ c ∈ cs, c.isDigit = true) (n : Nat) :
    Integer.readFrom (.digits false n) cs = .ok (Nat.ofDigitChars 10 cs n) := by
  induction cs generalizing n with
  | nil => rfl
  | cons c cs ih =>
    have hread : Integer.Progress.read (.digits false n) c =
        some (.digits false (10 * n + (c.toNat - '0'.toNat))) := by
      simp [Integer.Progress.read, digit?, h c List.mem_cons_self,
        Integer.Progress.negative, Integer.Progress.magnitude]
    rw [Integer.readFrom, hread, Nat.ofDigitChars_cons]
    exact ih (fun d hd => h d (List.mem_cons_of_mem c hd)) _

/-- A run of digits reads as the number it denotes. -/
theorem read_digits {cs : List Char} (hne : cs ≠ []) (h : ∀ c ∈ cs, c.isDigit = true) :
    Integer.readFrom .start cs = .ok (Nat.ofDigitChars 10 cs 0) := by
  cases cs with
  | nil => exact absurd rfl hne
  | cons c cs =>
    have hread : Integer.Progress.read .start c =
        some (.digits false (10 * 0 + (c.toNat - '0'.toNat))) := by
      simp [Integer.Progress.read, digit?, h c List.mem_cons_self,
        Integer.Progress.negative, Integer.Progress.magnitude]
    rw [Integer.readFrom, hread, Nat.ofDigitChars_cons]
    exact readFrom_digits (fun d hd => h d (List.mem_cons_of_mem c hd)) _

theorem lexed_visibleTokens (text : String) : Lexed (visibleTokens text) := by
  intro tok htok hkind
  have hgroup := mem_runs_of_mem_placeFrom (List.mem_filter.1 htok).1
  obtain ⟨hne, hchars⟩ := kind_of_mem_runs hgroup
  exact read_digits hne fun c hc => isDigit_of_ofChar ((hchars c hc).trans hkind)

/-! ## Words -/

/-- A token without its place. -/
def Token.word (tok : Token) : Kind × List Char :=
  (tok.kind, tok.lexeme.toList)

/-- The words of a text that are not blank. -/
def visibleWords (cs : List Char) : List (Kind × List Char) :=
  (runs cs).filter fun w => w.1 ≠ .blank

theorem map_word_placeFrom (start : Nat) (groups : List (Kind × List Char)) :
    (placeFrom start groups).map Token.word = groups := by
  induction groups generalizing start with
  | nil => rfl
  | cons group rest ih => simp [placeFrom, Token.word, ih]

theorem map_word_visibleTokens (text : String) :
    (visibleTokens text).map Token.word = visibleWords text.toList := by
  have hfilter : (fun tok : Token => decide (tok.kind ≠ .blank)) =
      (fun w : Kind × List Char => decide (w.1 ≠ .blank)) ∘ Token.word := rfl
  rw [visibleTokens, visible, hfilter, ← List.filter_map, tokens, map_word_placeFrom,
    visibleWords]

/-- The text does not go on with a digit. -/
def NoDigit (cs : List Char) : Prop :=
  ∀ c ∈ cs.head?, Kind.ofChar c ≠ .int

theorem visibleWords_blank {c : Char} (h : Kind.ofChar c = .blank) (cs : List Char) :
    visibleWords (c :: cs) = visibleWords cs := by
  unfold visibleWords
  rw [runs]
  unfold consRun
  split
  next hnil => simp [hnil, h]
  next kind ds rest hruns =>
    split
    next hsame =>
      have hkind : kind = .blank := by simp_all
      simp [hruns, hkind]
    · simp [hruns, h]

theorem visibleWords_single {c : Char} (hrun : (Kind.ofChar c).isRun = false)
    (cs : List Char) :
    visibleWords (c :: cs) = (Kind.ofChar c, [c]) :: visibleWords cs := by
  have hblank : Kind.ofChar c ≠ .blank := by
    intro h
    rw [h] at hrun
    simp [Kind.isRun] at hrun
  have hruns : runs ([c] ++ cs) = (Kind.ofChar c, [c]) :: runs cs :=
    runs_append (.cons (isGroup_singleton c) (grouped_runs cs) (by simp [hrun]))
  rw [List.singleton_append] at hruns
  simp [visibleWords, hruns, hblank]

theorem runs_digits {ds cs : List Char} (hne : ds ≠ [])
    (hds : ∀ d ∈ ds, Kind.ofChar d = .int) (hcs : NoDigit cs) :
    runs (ds ++ cs) = (.int, ds) :: runs cs := by
  refine runs_append (.cons ⟨hne, hds, by simp [Kind.isRun]⟩ (grouped_runs cs) ?_)
  intro g hg _ hkind
  have hhead := head?_runs cs
  rw [Option.mem_def.1 hg, Option.map_some, eq_comm, Option.map_eq_some_iff] at hhead
  obtain ⟨c, hc, hofChar⟩ := hhead
  exact hcs c hc (hofChar.trans hkind.symm)

theorem visibleWords_digits {ds cs : List Char} (hne : ds ≠ [])
    (hds : ∀ d ∈ ds, Kind.ofChar d = .int) (hcs : NoDigit cs) :
    visibleWords (ds ++ cs) = (.int, ds) :: visibleWords cs := by
  rw [visibleWords, runs_digits hne hds hcs]
  rfl

end TwentyFour
