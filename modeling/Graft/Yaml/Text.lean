/-!
# Graft.Yaml.Text

The characters of a YAML text and a cursor over them.

Every line break of one or two characters is first turned into a line feed; the
two Unicode separators remain, since a scalar keeps them where it folds a line
feed. From then on a line break is one character.
-/

namespace Graft
namespace Yaml

/-! ### Characters -/

/-- The characters a text may hold: no controls but tab and line breaks. -/
def isAdmissible (c : Char) : Bool :=
  let n := c.toNat
  n == 0x09 || n == 0x0A || n == 0x0D || n == 0x85
    || (0x20 ≤ n && n ≤ 0x7E) || (0xA0 ≤ n && n ≤ 0xFFFD) || 0x10000 ≤ n

/-- A space or a tab. -/
def isBlank (c : Char) : Bool := c == ' ' || c == '\t'

/-- A line break, once breaks are unified. -/
def isBreak (c : Char) : Bool := c == '\n' || c == '\u2028' || c == '\u2029'

/-- Whether the rest of a text starts with a blank or a break, or is over. -/
def atGap : List Char → Bool
  | [] => true
  | c :: _ => isBlank c || isBreak c

/-- A letter, a digit, a hyphen or an underscore. -/
def isNameChar (c : Char) : Bool := c.isAlphanum || c == '-' || c == '_'

/-- The mark that may stand in front of a line, where it takes up a column. -/
def byteOrderMark : Char := '\uFEFF'

/-- A text is looked at in blocks of this many bytes. -/
def blockSize : Nat := 16384

/-- Reads on in blocks; `good` are the reversed characters of the blocks so far,
`block` those of the current one, which has room for `room` bytes more. -/
def readBlocks (good block : List Char) (room : Nat) : List Char → List Char × Bool
  | [] => ((block ++ good).reverse, true)
  | c :: r =>
    let isFull := room < c.utf8Size
    let good := if isFull then block ++ good else good
    if isAdmissible c then
      if isFull then readBlocks good [c] (blockSize - c.utf8Size) r
      else readBlocks good (c :: block) (room - c.utf8Size) r
    else (good.reverse, false)

/-- The part of a text in front of the first block with a character that it may
not hold, and whether that is the whole text. A block holds whole characters. -/
def readable (cs : List Char) : List Char × Bool :=
  if cs.all isAdmissible then (cs, true) else readBlocks [] [] blockSize cs

/-- Turns every line break of the text into one line feed, onto the reversed
`acc`. -/
def unifyBreaks (acc : List Char) : List Char → List Char
  | [] => acc.reverse
  | '\r' :: '\n' :: r => unifyBreaks ('\n' :: acc) r
  | c :: r => unifyBreaks ((if c = '\r' ∨ c = '\u0085' then '\n' else c) :: acc) r

/-! ### Cursor -/

/-- A position in a text: what is left, and where it starts. -/
structure Cursor where
  /-- The characters that are left. -/
  rest : List Char
  /-- The number of line breaks passed. -/
  line : Nat
  /-- The number of characters passed on this line. -/
  column : Nat

namespace Cursor

/-- The start of a text. -/
def start (cs : List Char) : Cursor := ⟨cs, 0, 0⟩

/-- Past some characters of the same line. -/
def skip (c : Cursor) (n : Nat) : Cursor := ⟨c.rest.drop n, c.line, c.column + n⟩

/-- The characters from here on that satisfy `p`, all on this line, and the
position after them. -/
def span (c : Cursor) (p : Char → Bool) : List Char × Cursor :=
  let word := c.rest.takeWhile p
  (word, c.skip word.length)

/-- Past the blanks here. -/
def skipBlanks (c : Cursor) : Cursor := (c.span isBlank).2

/-- Past the rest of a line that may hold only blanks and a comment, and past its
break; `none` if there is anything else on it. -/
def endLine? (c : Cursor) : Option Cursor :=
  let c := c.skipBlanks
  let c := if c.rest.head? == some '#' then (c.span fun x => !isBreak x).2 else c
  match c.rest with
  | [] => some c
  | x :: r => if isBreak x then some ⟨r, c.line + 1, 0⟩ else none

end Cursor

/-- Whether a line starts with `---` or `...` and a gap. -/
def startsMarker (column : Nat) : List Char → Bool
  | a :: b :: c :: r =>
    column == 0 && a == b && b == c && (a == '-' || a == '.') && atGap r
  | _ => false

end Yaml
end Graft
