import TwentyFour.Text.Source

/-!
# Words and lines

Words are separated by blanks, where a blank is any character with the Unicode property
White_Space.  Every word comes with the bytes it stands at.

Lines end at a line feed, which may have a carriage return before it.
-/

namespace TwentyFour

/-- Whether a character is white space in the sense of Unicode. -/
def isBlank (c : Char) : Bool :=
  let n := c.toNat
  (0x9 ≤ n && n ≤ 0xd) || n == 0x20 || n == 0x85 || n == 0xa0 || n == 0x1680 ||
    (0x2000 ≤ n && n ≤ 0x200a) || n == 0x2028 || n == 0x2029 || n == 0x202f || n == 0x205f ||
    n == 0x3000

/-- A word of a text, with the bytes it stands at. -/
structure Word where
  text : String
  span : Span
deriving DecidableEq, Repr

/-- The first byte and the characters of every word among characters that start at byte
`start`. -/
def wordsFrom (start : Nat) : List Char → List (Nat × List Char)
  | [] => []
  | c :: cs =>
    let next := start + c.utf8Size
    if isBlank c then
      wordsFrom next cs
    else
      match wordsFrom next cs with
      | [] => [(start, [c])]
      | (first, word) :: rest =>
        if first = next then
          (start, c :: word) :: rest
        else
          (start, [c]) :: (first, word) :: rest

/-- The words among characters that start at byte `start`. -/
def words (start : Nat) (cs : List Char) : List Word :=
  (wordsFrom start cs).map fun (first, word) =>
    ⟨String.ofList word, first, first + byteLength word⟩

/-- The characters without the blanks at the end. -/
def trimEnd : List Char → List Char
  | [] => []
  | c :: cs =>
    match trimEnd cs with
    | [] => if isBlank c then [] else [c]
    | kept => c :: kept

/-- Puts a character in front of a text that is cut into lines. -/
def consLine (c : Char) : List (List Char) → List (List Char)
  | [] => [[c]]
  | line :: rest => (c :: line) :: rest

/-- The lines of a text, each with its line feed.  The last one may have none. -/
def cutLines : List Char → List (List Char)
  | [] => []
  | c :: cs => if c = '\n' then ['\n'] :: cutLines cs else consLine c (cutLines cs)

/-- Drops a carriage return at the end. -/
def dropReturn (line : List Char) : List Char :=
  if line.getLast? = some '\r' then line.dropLast else line

/-- A line without its line feed, and without the carriage return before that. -/
def stripLineEnd (line : List Char) : List Char :=
  if line.getLast? = some '\n' then dropReturn line.dropLast else line

/-- The lines of a text, without their ends. -/
def lines (text : String) : List String :=
  (cutLines text.toList).map fun line => String.ofList (stripLineEnd line)

/-- Cutting a text into lines loses nothing. -/
theorem flatten_cutLines (cs : List Char) : (cutLines cs).flatten = cs := by
  induction cs with
  | nil => rfl
  | cons c cs ih =>
    unfold cutLines
    split
    next heq => simp [ih, heq]
    next =>
      unfold consLine
      split
      next hnone => simp [hnone] at ih; simp [← ih]
      next line rest hsome => simp [hsome] at ih; simp [ih]

end TwentyFour
