/-!
# Integers as text

Integers and rationals are written in decimal.  There are two ways to read one.

`Integer.read` is lenient, for numbers inside a solution: blanks are skipped anywhere, one sign may
come before the digits, and `_` may separate digits.  It reads from left to right and reports the
first character that does not fit.

`natural?` and `integer?` are strict, for the numbers of a command: an optional sign, then digits
and nothing else, within the range of a 64-bit word.  Only signed numbers may have a `-`.
-/

namespace TwentyFour

/-! ## Writing -/

/-- An integer in decimal. -/
def integerText : Int → String
  | .ofNat n => n.repr
  | .negSucc n => "-" ++ (n + 1).repr

/-- A rational in lowest terms, without the denominator when it is 1. -/
def rationalText (v : Rat) : String :=
  if v.den = 1 then integerText v.num else integerText v.num ++ "/" ++ v.den.repr

/-- Numbers separated by `separator`. -/
def naturalsText (separator : String) (values : List Nat) : String :=
  separator.intercalate (values.map Nat.repr)

/-! ## Reading leniently -/

/-- The value of an ASCII digit. -/
def digit? (c : Char) : Option Nat :=
  if c.isDigit then some (c.toNat - '0'.toNat) else none

namespace Integer

/-- Why a text is not an integer. -/
inductive Malformed where
  /-- A character is neither a digit nor allowed where it stands. -/
  | invalidDigit
  /-- There are no digits at all. -/
  | noDigits
deriving DecidableEq, Repr

/-- What has been read of an integer. -/
inductive Progress where
  /-- Neither a sign nor a digit. -/
  | start
  /-- A sign. -/
  | signed (negative : Bool)
  /-- Digits, after an optional sign. -/
  | digits (negative : Bool) (magnitude : Nat)
deriving DecidableEq, Repr

/-- The blanks that are skipped inside an integer. -/
def isBlank (c : Char) : Bool :=
  c = ' ' || c = '\t' || c = '\n' || c = '\x0b' || c = '\x0c' || c = '\r'

/-- Whether the text read so far was negated by a sign. -/
def Progress.negative : Progress → Bool
  | .start => false
  | .signed negative => negative
  | .digits negative _ => negative

/-- The digits read so far, as a number. -/
def Progress.magnitude : Progress → Nat
  | .start => 0
  | .signed _ => 0
  | .digits _ magnitude => magnitude

/-- Reads one character, or gives nothing if it does not fit. -/
def Progress.read (progress : Progress) (c : Char) : Option Progress :=
  match digit? c with
  | some d => some (.digits progress.negative (10 * progress.magnitude + d))
  | none =>
    if isBlank c then
      some progress
    else
      match progress with
      | .start => if c = '+' then some (.signed false)
          else if c = '-' then some (.signed true) else none
      | .signed _ => none
      | .digits negative magnitude => if c = '_' then some (.digits negative magnitude) else none

/-- The integer that has been read, once there is a digit. -/
def Progress.finish : Progress → Except Malformed Int
  | .digits true magnitude => .ok (-(magnitude : Int))
  | .digits false magnitude => .ok magnitude
  | _ => .error .noDigits

/-- Reads the rest of an integer. -/
def readFrom (progress : Progress) : List Char → Except Malformed Int
  | [] => progress.finish
  | c :: cs =>
    match progress.read c with
    | none => .error .invalidDigit
    | some next => readFrom next cs

/-- Reads an integer leniently. -/
def read (s : String) : Except Malformed Int :=
  readFrom .start s.toList

end Integer

/-! ## Reading strictly -/

/-- The number that a list of ASCII digits denotes.  There must be at least one. -/
def digits? (cs : List Char) : Option Nat :=
  if !cs.isEmpty && cs.all Char.isDigit then some (Nat.ofDigitChars 10 cs 0) else none

/-- Drops a `+` in front. -/
def dropPlus : List Char → List Char
  | '+' :: cs => cs
  | cs => cs

/-- The first natural number that does not fit into a 64-bit word, 2^64. -/
def naturalLimit : Nat := 0x10000000000000000

/-- The first natural number that does not fit into a signed 64-bit word, 2^63. -/
def integerLimit : Nat := 0x8000000000000000

/-- Reads a natural number below 2^64, with an optional `+`. -/
def natural? (s : String) : Option Nat :=
  (digits? (dropPlus s.toList)).filter (· < naturalLimit)

/-- Reads an integer from -2^63 to 2^63 - 1, with an optional sign. -/
def integer? (s : String) : Option Int :=
  match s.toList with
  | '-' :: cs => ((digits? cs).filter (· ≤ integerLimit)).map fun n => -(n : Int)
  | cs => ((digits? (dropPlus cs)).filter (· < integerLimit)).map fun n => (n : Int)

/-- The digits of a number denote it. -/
theorem digits?_toDigits (n : Nat) : digits? (Nat.toDigits 10 n) = some n := by
  have hdigits : (Nat.toDigits 10 n).all Char.isDigit = true :=
    List.all_eq_true.2 fun c hc => Nat.isDigit_of_mem_toDigits (by omega) (by omega) hc
  simp [digits?, hdigits, Nat.ofDigitChars_ten_toDigits]

/-- A number ends where its digits do, so in front of a character that is no digit it can be
told from any other. -/
theorem toDigits_append_inj {m n : Nat} {c : Char} {cs ds : List Char} (hc : c.isDigit = false) :
    Nat.toDigits 10 m ++ c :: cs = Nat.toDigits 10 n ++ c :: ds ↔ m = n ∧ cs = ds := by
  have hfront (k : Nat) (es : List Char) :
      (Nat.toDigits 10 k ++ c :: es).takeWhile Char.isDigit = Nat.toDigits 10 k := by
    have hdigit : ∀ d ∈ Nat.toDigits 10 k, d.isDigit := fun d hd =>
      Nat.isDigit_of_mem_toDigits (by omega) (by omega) hd
    rw [List.takeWhile_append_of_pos hdigit]
    simp [hc]
  constructor
  · intro h
    have hdigits : Nat.toDigits 10 m = Nat.toDigits 10 n := by
      rw [← hfront m cs, h, hfront]
    have hmn : m = n := by
      simpa [digits?_toDigits] using congrArg digits? hdigits
    subst hmn
    exact ⟨rfl, (List.cons.inj (List.append_cancel_left h)).2⟩
  · rintro ⟨rfl, rfl⟩
    rfl

/-- A number is written without a sign. -/
theorem dropPlus_toDigits (n : Nat) : dropPlus (Nat.toDigits 10 n) = Nat.toDigits 10 n := by
  have hdigit {c : Char} (hmem : c ∈ Nat.toDigits 10 n) : c.isDigit :=
    Nat.isDigit_of_mem_toDigits (by omega) (by omega) hmem
  cases hdigits : Nat.toDigits 10 n with
  | nil => rfl
  | cons c cs =>
    unfold dropPlus
    split
    next hplus =>
      obtain ⟨rfl, rfl⟩ := List.cons.inj hplus
      exact absurd (hdigit (hdigits ▸ List.mem_cons_self)) (by decide)
    next => rfl

/-- A natural number that fits reads back. -/
theorem natural?_repr {n : Nat} (h : n < naturalLimit) : natural? n.repr = some n := by
  rw [natural?, Nat.toList_repr, dropPlus_toDigits, digits?_toDigits, Option.filter_some,
    if_pos (decide_eq_true h)]

end TwentyFour
