import Graft.Number.Digit
import Graft.Yaml.Text

/-!
# Graft.Yaml.Scalar

The text of a scalar in each of its styles.

Plain and quoted scalars fold: between two words of one, blanks are kept, a
single line feed becomes a space, and of more line feeds the first is dropped
(`Gap`). Block scalars keep lines as they are from the indentation of the first
one, or fold those that neither start with a blank nor follow one that does.
-/

namespace Graft
namespace Yaml

/-! ### Folding -/

/-- White space between two words of a scalar, latest first. -/
inductive Gap where
  /-- No white space. -/
  | none
  /-- Blanks. -/
  | blanks (reversed : List Char)
  /-- Line breaks: the first, unless it was escaped, and the others. -/
  | breaks (first : Option Char) (reversed : List Char)

namespace Gap

/-- The gap after another blank; blanks around line breaks do not count. -/
def addBlank (c : Char) : Gap → Gap
  | none => blanks [c]
  | blanks cs => blanks (c :: cs)
  | breaks first cs => breaks first cs

/-- The gap after another line break. -/
def addBreak (c : Char) : Gap → Gap
  | breaks first cs => breaks first (c :: cs)
  | _ => breaks (some c) []

/-- Whether there is any white space. -/
def isOpen : Gap → Bool
  | none => false
  | _ => true

/-- Whether the gap goes over a line break. -/
def isBreak : Gap → Bool
  | breaks .. => true
  | _ => false

/-- What the gap amounts to, onto a reversed text. -/
def fold (acc : List Char) : Gap → List Char
  | none => acc
  | blanks cs => cs ++ acc
  | breaks (some '\n') [] => ' ' :: acc
  | breaks (some '\n') cs => cs ++ acc
  | breaks (some c) cs => cs ++ (c :: acc)
  | breaks .none cs => cs ++ acc

end Gap

/-! ### Plain scalars -/

/-- A plain scalar that has been read. -/
structure Plain where
  /-- Its text. -/
  text : String
  /-- The position after it and the white space that follows. -/
  after : Cursor
  /-- Whether that white space holds a line break. -/
  broken : Bool

/-- The scalar with a reversed text, in front of a gap that leads to a position. -/
def Plain.ending (acc : List Char) (gap : Gap) (after : Cursor) : Plain :=
  ⟨String.ofList acc.reverse, after, gap.isBreak⟩

/-- Whether a character ends a plain scalar inside brackets. -/
def isFlowPunctuation (c : Char) : Bool :=
  c == ',' || c == '[' || c == ']' || c == '{' || c == '}'

/-- Reads on in a plain scalar: `flow` inside brackets, `indent` the column its
further lines must reach outside of them, `acc` the reversed text so far. It ends
before a mapping colon, a comment, a marker or a line that is indented too
little; a tab in the indentation, and a colon right before punctuation of the
brackets, are errors. -/
def readPlain (flow : Bool) (indent : Nat) (acc : List Char) (gap : Gap) (line column : Nat) :
    List Char → Option Plain
  | [] => some (.ending acc gap ⟨[], line, column⟩)
  | c :: r =>
    if isBlank c then
      if gap.isBreak && column < indent && c == '\t' then none
      else readPlain flow indent acc (gap.addBlank c) line (column + 1) r
    else if isBreak c then readPlain flow indent acc (gap.addBreak c) (line + 1) 0 r
    else
      if gap.isOpen && ((!flow && column < indent) || startsMarker column (c :: r) || c == '#')
      then some (.ending acc gap ⟨c :: r, line, column⟩)
      else if flow && c == ':' && r.head?.any (fun x => isFlowPunctuation x || x == '?') then none
      else if (c == ':' && atGap r) || (flow && isFlowPunctuation c) then
        some (.ending acc gap ⟨c :: r, line, column⟩)
      else readPlain flow indent (c :: gap.fold acc) .none line (column + 1) r

/-! ### Quoted scalars -/

/-- The character a one-letter escape stands for. -/
def escaped? : Char → Option Char
  | '0' => some '\x00'
  | 'a' => some '\x07'
  | 'b' => some '\x08'
  | 't' => some '\t'
  | '\t' => some '\t'
  | 'n' => some '\n'
  | 'v' => some '\x0b'
  | 'f' => some '\x0c'
  | 'r' => some '\r'
  | 'e' => some '\x1b'
  | ' ' => some ' '
  | '"' => some '"'
  | '/' => some '/'
  | '\\' => some '\\'
  | 'N' => some '\u0085'
  | '_' => some '\u00a0'
  | 'L' => some '\u2028'
  | 'P' => some '\u2029'
  | _ => none

/-- The number of hexadecimal digits after the letter of a numeric escape. -/
def escapeWidth? : Char → Option Nat
  | 'x' => some 2
  | 'u' => some 4
  | 'U' => some 8
  | _ => none

/-- Where the reader is in an escape. -/
inductive Escape where
  /-- Not in one. -/
  | none
  /-- After the backslash. -/
  | mark
  /-- With some digits to come and the value of those read. -/
  | digits (left value : Nat)

/-- Reads on in a single-quoted scalar, after the quote that opens it. A doubled
quote is one quote; a marker on a line of its own is an error. -/
def readSingleQuoted (acc : List Char) (gap : Gap) (line column : Nat) :
    List Char → Option (String × Cursor)
  | [] => none
  | '\'' :: '\'' :: r => readSingleQuoted ('\'' :: gap.fold acc) .none line (column + 2) r
  | c :: r =>
    if isBlank c then readSingleQuoted acc (gap.addBlank c) line (column + 1) r
    else if isBreak c then readSingleQuoted acc (gap.addBreak c) (line + 1) 0 r
    else if startsMarker column (c :: r) then none
    else if c == '\'' then some (String.ofList (gap.fold acc).reverse, ⟨r, line, column + 1⟩)
    else readSingleQuoted (c :: gap.fold acc) .none line (column + 1) r

/-- Reads on in a double-quoted scalar, after the quote that opens it. An escaped
line break is dropped with the indentation after it. -/
def readDoubleQuoted (acc : List Char) (gap : Gap) (escape : Escape) (line column : Nat) :
    List Char → Option (String × Cursor)
  | [] => none
  | c :: r =>
    match escape with
    | .digits left value =>
      match Digit.value? c with
      | Option.none => Option.none
      | some d =>
        let value := value * 16 + d
        if 1 < left then readDoubleQuoted acc gap (.digits (left - 1) value) line (column + 1) r
        else if value.isValidChar then
          readDoubleQuoted (Char.ofNat value :: acc) gap .none line (column + 1) r
        else Option.none
    | .mark =>
      if isBreak c then readDoubleQuoted acc (.breaks Option.none []) .none (line + 1) 0 r
      else
        match escapeWidth? c, escaped? c with
        | some width, _ => readDoubleQuoted acc gap (.digits width 0) line (column + 1) r
        | Option.none, some x => readDoubleQuoted (x :: acc) gap .none line (column + 1) r
        | Option.none, Option.none => Option.none
    | .none =>
      if isBlank c then readDoubleQuoted acc (gap.addBlank c) .none line (column + 1) r
      else if isBreak c then readDoubleQuoted acc (gap.addBreak c) .none (line + 1) 0 r
      else if startsMarker column (c :: r) then Option.none
      else if c == '"' then some (String.ofList (gap.fold acc).reverse, ⟨r, line, column + 1⟩)
      else if c == '\\' then readDoubleQuoted (gap.fold acc) .none .mark line (column + 1) r
      else readDoubleQuoted (c :: gap.fold acc) .none .none line (column + 1) r

/-! ### Block scalars -/

/-- What becomes of the line breaks at the end of a block scalar. -/
inductive Chomping where
  /-- One is kept. -/
  | clip
  /-- None is kept. -/
  | strip
  /-- All are kept. -/
  | keep
  deriving DecidableEq

/-- The chomping indicator here, if any. -/
def takeChomping (c : Cursor) : Option Chomping × Cursor :=
  match c.rest with
  | '+' :: _ => (some .keep, c.skip 1)
  | '-' :: _ => (some .strip, c.skip 1)
  | _ => (none, c)

/-- The indentation indicator here, zero if there is none; it cannot be zero
itself. -/
def takeIncrement? (c : Cursor) : Option (Nat × Cursor) :=
  match c.rest with
  | d :: _ =>
    if d.isDigit then
      if d == '0' then none else some (d.toNat - '0'.toNat, c.skip 1)
    else some (0, c)
  | [] => some (0, c)

/-- The indicators of a block scalar in either order, and the position on the
line after them. -/
def blockHeader? (c : Cursor) : Option (Chomping × Nat × Cursor) := do
  let (first, c) := takeChomping c
  let (increment, c) ← takeIncrement? c
  let (second, c) := match first with
    | none => if increment = 0 then (none, c) else takeChomping c
    | some _ => (none, c)
  let c ← c.endLine?
  return ((first.or second).getD .clip, increment, c)

/-- A block scalar while it is read; texts are reversed. -/
structure Block where
  /-- The indentation of its lines, zero until the first one shows it. -/
  indent : Nat
  /-- The deepest indentation of the empty lines in front. -/
  deepest : Nat
  /-- The text so far. -/
  text : List Char
  /-- The break of the line before, unless it has been used. -/
  leading : Option Char
  /-- The breaks of the empty lines since. -/
  trailing : List Char
  /-- Whether the line before started with a blank. -/
  blankBefore : Bool
  /-- Whether the position is inside a line. -/
  inLine : Bool

/-- The scalar with the first character of another line. -/
def Block.startLine (literal : Bool) (b : Block) (indent : Nat) (c : Char) : Block :=
  let folds := !literal && b.leading == some '\n' && !b.blankBefore && !isBlank c
  let text :=
    if folds then
      if b.trailing.isEmpty then ' ' :: b.text else b.text
    else b.leading.toList ++ b.text
  { b with
    indent := indent
    text := c :: (b.trailing ++ text)
    leading := none
    trailing := []
    blankBefore := isBlank c
    inLine := true }

/-- Reads on in a block scalar; `least` is the smallest indentation its lines can
have. A tab in the indentation is an error. -/
def readBlock (literal : Bool) (least : Nat) (b : Block) (line column : Nat) :
    List Char → Option (Block × Cursor)
  | [] => some (b, ⟨[], line, column⟩)
  | c :: r =>
    if b.inLine then
      if isBreak c then
        readBlock literal least { b with leading := some c, inLine := false } (line + 1) 0 r
      else readBlock literal least { b with text := c :: b.text } line (column + 1) r
    else
      let inMargin := b.indent == 0 || column < b.indent
      if inMargin && c == ' ' then
        let deepest := max b.deepest (column + 1)
        readBlock literal least { b with deepest := deepest } line (column + 1) r
      else if inMargin && c == '\t' then none
      else if isBreak c then
        readBlock literal least { b with trailing := c :: b.trailing } (line + 1) 0 r
      else
        let indent := if b.indent = 0 then max (max b.deepest column) least else b.indent
        if column = indent then
          readBlock literal least (b.startLine literal indent c) line (column + 1) r
        else some (b, ⟨c :: r, line, column⟩)

/-- The text of a finished block scalar. -/
def Block.chomp (b : Block) (chomping : Chomping) : String :=
  let text := if chomping = .strip then b.text else b.leading.toList ++ b.text
  let text := if chomping = .keep then b.trailing ++ text else text
  String.ofList text.reverse

/-- A block scalar, after the character that opens it; `parent` is the
indentation of the collection it is in, `-1` outside of all. -/
def blockScalar? (literal : Bool) (parent : Int) (c : Cursor) : Option (String × Cursor) := do
  let (chomping, increment, c) ← blockHeader? c
  let indent := if increment = 0 then 0 else (max parent 0).toNat + increment
  let least := max (parent + 1).toNat 1
  let (b, c) ← readBlock literal least ⟨indent, 0, [], none, [], false, false⟩ c.line c.column c.rest
  return (b.chomp chomping, c)

end Yaml
end Graft
