/-!
# Places in a text

A span is a range of byte offsets into the UTF-8 form of a text.  `suffixFrom` is the text from a
byte on, `charOffset` counts the characters before a byte, `locate` gives the line and column of a
byte, and `Span.location?` the place that a span is reported at.

Lines end after CR, LF, VT, FF, NEL, LS and PS.  CR LF is one break, and a break at the very end of
the text opens no new line.
-/

namespace TwentyFour

/-! ## Bytes -/

/-- A range of bytes in a text. -/
structure Span where
  /-- The first byte. -/
  start : Nat
  /-- The byte after the last one. -/
  stop : Nat
deriving DecidableEq, Repr

/-- Moves a span by `offset` bytes to the right. -/
def Span.shift (span : Span) (offset : Nat) : Span :=
  ⟨span.start + offset, span.stop + offset⟩

/-- The number of bytes that characters take in UTF-8. -/
def byteLength : List Char → Nat
  | [] => 0
  | c :: cs => c.utf8Size + byteLength cs

@[simp] theorem byteLength_nil : byteLength [] = 0 := rfl

@[simp] theorem byteLength_cons (c : Char) (cs : List Char) :
    byteLength (c :: cs) = c.utf8Size + byteLength cs := rfl

@[simp] theorem byteLength_append (cs ds : List Char) :
    byteLength (cs ++ ds) = byteLength cs + byteLength ds := by
  induction cs with
  | nil => simp
  | cons c cs ih => simp [ih, Nat.add_assoc]

/-- The characters from a byte offset on.  An offset inside a character skips that character. -/
def dropBytes : Nat → List Char → List Char
  | 0, cs => cs
  | _ + 1, [] => []
  | n + 1, c :: cs => dropBytes (n + 1 - c.utf8Size) cs

/-- Dropping the bytes of a prefix leaves the rest. -/
@[simp] theorem dropBytes_append (cs ds : List Char) :
    dropBytes (byteLength cs) (cs ++ ds) = ds := by
  induction cs with
  | nil => simp [dropBytes]
  | cons c cs ih =>
    have hpos := c.utf8Size_pos
    obtain ⟨n, hn⟩ : ∃ n, byteLength (c :: cs) = n + 1 :=
      ⟨byteLength (c :: cs) - 1, by simp; omega⟩
    rw [hn, List.cons_append, dropBytes]
    have hrest : n + 1 - c.utf8Size = byteLength cs := by simp at hn; omega
    rw [hrest, ih]

/-- The text from a byte offset on. -/
def suffixFrom (text : String) (start : Nat) : String :=
  String.ofList (dropBytes start text.toList)

/-- The number of characters in the first `n` bytes, if these are whole characters. -/
def charsInBytes? : Nat → List Char → Option Nat
  | 0, _ => some 0
  | _ + 1, [] => none
  | n + 1, c :: cs =>
    if c.utf8Size ≤ n + 1 then
      (charsInBytes? (n + 1 - c.utf8Size) cs).map (· + 1)
    else
      none

/-- The number of characters before a byte.  An offset that is not between two characters of the
text is left as it is. -/
def charOffset (text : String) (byte : Nat) : Nat :=
  (charsInBytes? byte text.toList).getD byte

/-! ## Lines and columns -/

/-- Whether a character ends a line. -/
def isLineBreak (c : Char) : Bool :=
  c = '\r' || c = '\n' || c = '\x0b' || c = '\x0c' || c = '\u0085' || c = '\u2028' || c = '\u2029'

/-- Whether a new line starts between `c` and the characters after it. -/
def startsLine (c : Char) : List Char → Bool
  | [] => false
  | next :: _ => isLineBreak c && !(c = '\r' && next = '\n')

/-- A place as it is reported, counted from 1. -/
inductive Location where
  /-- A line, and a column in characters. -/
  | lineColumn (line column : Nat)
  /-- A place outside the text. -/
  | unknown
deriving DecidableEq, Repr

/-- Goes `n` characters on from a line and column. -/
def advance : Nat → List Char → Nat → Nat → Location
  | 0, _, line, column => .lineColumn line column
  | _ + 1, [], _, _ => .unknown
  | n + 1, c :: cs, line, column =>
    if startsLine c cs then advance n cs (line + 1) 1 else advance n cs line (column + 1)

/-- The line and column of a byte of the text. -/
def locate (text : String) (byte : Nat) : Location :=
  advance (charOffset text byte) text.toList 1 1

/-- The place at which a span of the text is reported: that of its first byte.  A span that ends
before it starts, both counted in characters, has no place.  Neither has one at the start of an
empty text, which has no line to be on. -/
def Span.location? (span : Span) (text : String) : Option Location :=
  if charOffset text span.stop < charOffset text span.start then
    none
  else if text.isEmpty ∧ span.start = 0 then
    none
  else
    some (locate text span.start)

/-- A place as `line:column`. -/
def Location.text : Location → String
  | .lineColumn line column => line.repr ++ ":" ++ column.repr
  | .unknown => "?:?"

end TwentyFour
