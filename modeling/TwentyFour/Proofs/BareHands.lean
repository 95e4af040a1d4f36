import TwentyFour.Proofs.Commands

/-!
# Hands with and without `hint`

Outside of a game a hand may be typed with `hint` in front of it or bare.  A bare line is taken
for a hand by its first word, which has to be an integer of 64 bits with a sign, while the numbers
of a hand are integers of 64 bits without one.

* `integer?_of_natural?` compares the two readings of a word.
* `Command.naturals_eq_ok_iff` and `Command.hand_eq_ok_iff` say when the numbers of a hand are
  read.
* `Command.parse_hint_iff` and `Command.parse_solve_iff` are about the two kinds of lines, and
  `Command.solve_iff_hint` compares them: the bare line is a hand exactly if the other one is and
  its first number is below 2^63.
-/

namespace TwentyFour

/-! ## One word -/

/-- A natural number is read as an integer if it is small enough to have a sign. -/
theorem integer?_of_natural? {word : String} {n : Nat} (h : natural? word = some n) :
    (integer? word).isSome = true ↔ n < integerLimit := by
  rw [natural?, Option.filter_eq_some_iff] at h
  obtain ⟨hdigits, -⟩ := h
  unfold integer?
  split
  next cs hminus =>
    -- A minus is no digit, so such a word is no natural number.
    rw [hminus] at hdigits
    simp [dropPlus, digits?, Char.isDigit] at hdigits
  next =>
    rw [hdigits, Option.filter_some]
    split <;> simp_all

/-- No keyword is a number. -/
theorem Keyword.ofWord?_of_natural? {word : String} (h : (natural? word).isSome = true) :
    Keyword.ofWord? word = none := by
  unfold Keyword.ofWord?
  split <;> first | rfl | exact absurd h (by decide)

namespace Command

/-! ## Numbers -/

theorem naturals_eq_ok_iff {ws : List Word} {values : List Nat} :
    naturals ws = .ok values ↔
      ws.map (fun word => natural? word.text) = values.map some := by
  induction ws generalizing values with
  | nil => cases values <;> simp [naturals]
  | cons word ws ih =>
    rw [naturals, List.map_cons]
    cases hword : natural? word.text with
    | none => cases values <;> simp
    | some n =>
      cases values with
      | nil => cases naturals ws <;> simp
      | cons v values =>
        have hrest : naturals ws = .ok values ↔ _ := ih
        cases hws : naturals ws <;> simp_all

theorem hand_eq_ok_iff (name : String) (first : Word) {ws : List Word} {values : List Nat} :
    hand name first ws = .ok values ↔ values ≠ [] ∧ naturals ws = .ok values := by
  rw [hand]
  cases naturals ws with
  | error e => simp
  | ok read =>
    cases read with
    | nil => simp [eq_comm]
    | cons n read =>
      simp only [Except.ok.injEq, iff_and_self]
      rintro rfl
      exact List.cons_ne_nil n read

/-! ## Lines -/

section Lines

variable {line : String} {first : Word} {others : List Word} {values : List Nat}

theorem parse_eq_ok_iff (hwords : words 0 line.toList = first :: others) {playing : Bool}
    {command : Command} :
    parse line playing = .ok (some command) ↔
      readWords line playing first others = .ok command := by
  simp only [parse, hwords]
  cases readWords line playing first others <;> simp

/-- A line that starts with `hint` asks for a hint for the numbers behind it. -/
theorem parse_hint_iff (hwords : words 0 line.toList = first :: others)
    (hfirst : first.text = "hint") (playing : Bool) :
    parse line playing = .ok (some (.hint values)) ↔
      values ≠ [] ∧ naturals others = .ok values := by
  have hkeyword : Keyword.ofWord? first.text = some .hint := by rw [hfirst]; rfl
  rw [parse_eq_ok_iff hwords, ← hand_eq_ok_iff "hint" first]
  simp only [readWords, hkeyword]
  split
  next hbare =>
    -- Without numbers the line asks about the hand being played.
    simp only [Bool.and_eq_true, List.isEmpty_iff] at hbare
    simp [hbare.2, hand, naturals]
  next => cases hand "hint" first others <;> simp

/-- Only a line that is no command can be a bare hand. -/
theorem readOther_of_readWords {playing : Bool}
    (h : readWords line playing first others = .ok (.solve values)) :
    readOther line playing first others = .ok (.solve values) := by
  unfold readWords at h
  split at h
  case h_11 => exact h
  case h_8 =>
    split at h
    · simp at h
    · split at h <;> simp at h
  case h_9 =>
    simp only [readCheck] at h
    split at h
    · simp at h
    · split at h <;> simp at h
  case h_10 =>
    unfold readTarget at h
    split at h
    · simp at h
    · split at h <;> simp at h
    · simp at h
  case h_4 | h_5 | h_6 | h_7 =>
    rw [duringGame] at h
    split at h <;> simp at h
  all_goals simp at h

/-- The first of the numbers is what the first word says. -/
theorem head?_of_naturals (h : naturals (first :: others) = .ok values) :
    ∃ v, natural? first.text = some v ∧ values.head? = some v := by
  rw [naturals_eq_ok_iff, List.map_cons] at h
  cases values with
  | nil => simp at h
  | cons v values => exact ⟨v, (List.cons.inj h).1, rfl⟩

/-- Outside of a game, a line of numbers is taken for a hand if the first one is small enough
to have a sign, and else its first word is unknown. -/
theorem parse_of_naturals (hwords : words 0 line.toList = first :: others)
    (h : naturals (first :: others) = .ok values) :
    parse line false =
      if ∀ v ∈ values.head?, v < integerLimit then .ok (some (.solve values))
      else .error (.about first.span (.unknownCommand first.text)) := by
  obtain ⟨v, hfirst, hhead⟩ := head?_of_naturals h
  have hkeyword := Keyword.ofWord?_of_natural? (Option.isSome_iff_exists.2 ⟨v, hfirst⟩)
  have hinteger := integer?_of_natural? hfirst
  simp only [parse, hwords, readWords, hkeyword, readOther, h, hhead, Option.mem_some_iff,
    forall_eq', Bool.false_eq_true, if_false, hinteger]
  by_cases hlimit : v < integerLimit
  · simp only [hlimit, if_true]
  · simp only [hlimit, if_false]

/-- A bare line is a hand if its words are numbers and the first one is small enough to have
a sign. -/
theorem parse_solve_iff (hwords : words 0 line.toList = first :: others) :
    parse line false = .ok (some (.solve values)) ↔
      naturals (first :: others) = .ok values ∧ ∀ v ∈ values.head?, v < integerLimit := by
  constructor
  · intro h
    have hother := readOther_of_readWords ((parse_eq_ok_iff hwords).1 h)
    have hnaturals : naturals (first :: others) = .ok values := by
      simp only [readOther, Bool.false_eq_true, if_false] at hother
      split at hother
      · split at hother <;> simp_all
      · simp at hother
    rw [parse_of_naturals hwords hnaturals] at h
    split at h
    next hlimit => exact ⟨hnaturals, hlimit⟩
    next => simp at h
  · rintro ⟨hnaturals, hlimit⟩
    rw [parse_of_naturals hwords hnaturals, if_pos hlimit]

end Lines

/-- A line `bare` and a line with `hint` in front of the same words.  The line with `hint` asks
for a hint for the numbers exactly if these are what its words say.  Outside of a game, the bare
line is a hand of the same numbers exactly if the other one is and the first number is below
2^63.  From there on the first word of the bare line is unknown. -/
theorem solve_iff_hint {bare hinting : String} {values : List Nat}
    (hwords : (words 0 hinting.toList).map (·.text) =
      "hint" :: (words 0 bare.toList).map (·.text)) :
    (∀ playing, parse hinting playing = .ok (some (.hint values)) ↔
      values ≠ [] ∧
        (words 0 bare.toList).map (fun word => natural? word.text) = values.map some) ∧
    (parse bare false = .ok (some (.solve values)) ↔
      parse hinting false = .ok (some (.hint values)) ∧
        ∀ v ∈ values.head?, v < integerLimit) ∧
    (parse hinting false = .ok (some (.hint values)) →
      (∃ v ∈ values.head?, integerLimit ≤ v) → ∃ first ∈ (words 0 bare.toList).head?,
        parse bare false = .error (.about first.span (.unknownCommand first.text))) := by
  obtain ⟨keyword, numbers, hhinting, hkeyword, htexts⟩ := List.map_eq_cons_iff.1 hwords
  have hreadings : numbers.map (fun word => natural? word.text) =
      (words 0 bare.toList).map fun word => natural? word.text := by
    have hmap := congrArg (List.map natural?) htexts
    rwa [List.map_map, List.map_map] at hmap
  have hhint : ∀ playing, parse hinting playing = .ok (some (.hint values)) ↔
      values ≠ [] ∧ naturals (words 0 bare.toList) = .ok values := by
    intro playing
    rw [parse_hint_iff hhinting hkeyword, naturals_eq_ok_iff, naturals_eq_ok_iff, hreadings]
  refine ⟨fun playing => ?_, ?_, ?_⟩
  · rw [hhint, naturals_eq_ok_iff]
  · rw [hhint]
    cases hbare : words 0 bare.toList with
    | nil =>
      have hblank : parse bare false = .ok none := by rw [parse, hbare]
      simp [hblank, naturals, eq_comm]
    | cons first others =>
      have hne : naturals (first :: others) = .ok values → values ≠ [] := fun hnaturals =>
        (numbers_of_naturals hnaturals).1
      rw [parse_solve_iff hbare]
      tauto
  · rintro hhinted ⟨v, hv, hlarge⟩
    obtain ⟨hne, hnaturals⟩ := (hhint false).1 hhinted
    cases hbare : words 0 bare.toList with
    | nil =>
      rw [hbare] at hnaturals
      exact absurd (Except.ok.inj hnaturals).symm hne
    | cons first others =>
      rw [hbare] at hnaturals
      refine ⟨first, rfl, ?_⟩
      rw [parse_of_naturals hbare hnaturals, if_neg]
      exact fun hlimit => absurd (hlimit v hv) (Nat.not_lt.2 hlarge)

/-- The largest first number that a bare hand can have, and the largest second one. -/
theorem solve_iff_hint_largest :
    (words 0 "hint 9223372036854775807 18446744073709551615".toList).map (·.text) =
        "hint" :: (words 0 "9223372036854775807 18446744073709551615".toList).map (·.text) ∧
      parse "9223372036854775807 18446744073709551615" false =
        .ok (some (.solve [9223372036854775807, 18446744073709551615])) := by
  have hwords : (words 0 "hint 9223372036854775807 18446744073709551615".toList).map (·.text) =
      "hint" :: (words 0 "9223372036854775807 18446744073709551615".toList).map (·.text) := by
    decide +kernel
  obtain ⟨hhint, hsolve, -⟩ :=
    @solve_iff_hint _ _ [9223372036854775807, 18446744073709551615] hwords
  have hhinted := (hhint false).2 ⟨by decide, by decide +kernel⟩
  exact ⟨hwords, hsolve.2 ⟨hhinted, by decide⟩⟩

/-- The number 2^63 is read behind `hint`, and not at the front of a bare hand. -/
theorem parse_large_first_number :
    (words 0 "9223372036854775808 1".toList).map (fun word => natural? word.text) =
        [9223372036854775808, 1].map some ∧
      parse "hint 9223372036854775808 1" false =
        .ok (some (.hint [9223372036854775808, 1])) ∧
      parse "9223372036854775808 1" false =
        .error ⟨[⟨0, 19⟩], .unknownCommand "9223372036854775808"⟩ ∧
      parse "9223372036854775808 1" false ≠
        .ok (some (.solve [9223372036854775808, 1])) := by
  have hnumbers : (words 0 "9223372036854775808 1".toList).map
      (fun word => natural? word.text) = [9223372036854775808, 1].map some := by
    decide +kernel
  have hhint : parse "hint 9223372036854775808 1" false =
      .ok (some (.hint [9223372036854775808, 1])) := rfl
  have hbare : parse "9223372036854775808 1" false =
      .error ⟨[⟨0, 19⟩], .unknownCommand "9223372036854775808"⟩ := rfl
  refine ⟨hnumbers, hhint, hbare, ?_⟩
  rw [hbare]
  simp

end Command

end TwentyFour
