import Graft.Yaml.Schema
import Graft.Yaml.Text

/-!
# Graft.Yaml.Printer

YAML text of a value, in block style: one entry or item per line, two columns
per level, sequences in mappings at the column of their key, empty collections
as `[]` and `{}`.

A string of several lines is written as a literal block where it can be, and any
other one in the plainest style that reads back as the same string
(`Facts.style`). A key that is a collection, has several lines or is longer than
`keyLimit` is marked by a question mark.

`Pen` is the text written so far with what the next mark depends on: the column,
whether white space was written last, and whether the line holds nothing but
indentation and marks of it.
-/

namespace Graft
namespace Yaml
namespace Printer

/-! ### What a text allows -/

/-- Characters that are written as they are: no controls and no byte order mark. -/
def isPrintable (c : Char) : Bool :=
  let n := c.toNat
  n == 0x0A || (0x20 ≤ n && n ≤ 0x7E) || (0xA0 ≤ n && n ≤ 0xFFFD && n != 0xFEFF) || 0x10000 ≤ n

/-- A gap or a character that ends a text. -/
def isGap (c : Char) : Bool := isBlank c || isBreak c || c == '\r' || c == '\u0085' || c == '\x00'

/-- A line break of any kind. -/
def isLineBreak (c : Char) : Bool := isBreak c || c == '\r' || c == '\u0085'

/-- What decides the style of a text. -/
structure Facts where
  /-- It holds a mark that would be read as YAML. -/
  hasMark : Bool := false
  /-- It holds a line break. -/
  hasBreak : Bool := false
  /-- It holds a character that is not written as it is. -/
  hasSpecial : Bool := false
  /-- Its first or its last character is a space or a line break. -/
  hasEdge : Bool := false
  /-- Its last character is a space. -/
  endsInSpace : Bool := false
  /-- A line of it starts with a space. -/
  breakThenSpace : Bool := false
  /-- A line of it ends with a space. -/
  spaceThenBreak : Bool := false

/-- Whether a character is a mark where it stands: `first` at the start of the
text, `after` a gap, `before` a gap or the end. -/
def isMark (first after before : Bool) (c : Char) : Bool :=
  if first then
    "#,[]\x7b\x7d&*!|>'\"%@`".toList.contains c || ((c == '?' || c == ':' || c == '-') && before)
  else (c == ':' && before) || (c == '#' && after)

/-- The facts of a text, character by character; `previous` is the character in
front. -/
def Facts.scan (f : Facts) (previous : Option Char) : List Char → Facts
  | [] => f
  | c :: r =>
    let first := previous.isNone
    let last := r.isEmpty
    let after := previous.all isGap
    let before := r.head?.all isGap
    let edge := first || last
    let f := { f with
      hasMark := f.hasMark || isMark first after before c
      hasBreak := f.hasBreak || isLineBreak c
      hasSpecial := f.hasSpecial || !isPrintable c
      hasEdge := f.hasEdge || (edge && (c == ' ' || isLineBreak c))
      endsInSpace := f.endsInSpace || (last && c == ' ')
      breakThenSpace := f.breakThenSpace || (c == ' ' && previous.any isLineBreak)
      spaceThenBreak := f.spaceThenBreak || (isLineBreak c && previous == some ' ') }
    f.scan (some c) r

/-- The facts of a text. -/
def Facts.of (cs : List Char) : Facts :=
  let marker := match cs with
    | '-' :: '-' :: '-' :: _ => true
    | '.' :: '.' :: '.' :: _ => true
    | _ => false
  Facts.scan { hasMark := marker } none cs

/-- Whether a text can stand without quotes. -/
def Facts.plainAllowed (f : Facts) : Bool :=
  !f.hasMark && !f.hasBreak && !f.hasSpecial && !f.hasEdge && !f.breakThenSpace && !f.spaceThenBreak

/-- Whether a text can stand in single quotes. -/
def Facts.singleAllowed (f : Facts) : Bool :=
  !f.hasSpecial && !f.breakThenSpace && !f.spaceThenBreak

/-- Whether a text can stand in a block. -/
def Facts.blockAllowed (f : Facts) : Bool :=
  !f.hasSpecial && !f.spaceThenBreak && !f.endsInSpace

/-- The style of a string; `simpleKey` where it is a key without a question
mark, which has one line. -/
def style (simpleKey : Bool) (text : String) : ScalarStyle :=
  let f := Facts.of text.toList
  if text.contains '\n' then
    if f.blockAllowed && !simpleKey then .literal else .doubleQuoted
  else if simpleKey && f.hasBreak then .doubleQuoted
  else if !needsQuotes text && f.plainAllowed then .plain
  else if f.singleAllowed then .singleQuoted
  else .doubleQuoted

/-! ### Pen -/

/-- A text while it is written. -/
structure Pen where
  /-- The text so far. -/
  out : String
  /-- The number of characters on the last line. -/
  column : Nat
  /-- Whether the last mark needs no space after it. -/
  spaced : Bool
  /-- Whether the line holds nothing but indentation and marks of it. -/
  fresh : Bool

namespace Pen

/-- An empty page. -/
def empty : Pen := ⟨"", 0, true, true⟩

/-- Writes a character. -/
def put (p : Pen) (c : Char) : Pen :=
  { p with out := p.out.push c, column := if isBreak c then 0 else p.column + 1 }

/-- Writes characters of one line. -/
def puts (p : Pen) (s : String) : Pen :=
  { p with out := p.out ++ s, column := p.column + s.length }

/-- Moves to a column at the start of a line: this one, if nothing is in the
way. -/
def toColumn (p : Pen) (column : Nat) : Pen :=
  let p := if !p.fresh || column < p.column || (p.column == column && !p.spaced) then p.put '\n' else p
  let p := p.puts (String.ofList (List.replicate (column - p.column) ' '))
  { p with spaced := true, fresh := true }

/-- A space, unless one was written last. -/
def space (p : Pen) : Pen := if p.spaced then p else p.put ' '

/-- Writes a mark after a space; a mark of indentation keeps the line fresh. -/
def mark (p : Pen) (s : String) (ofIndentation : Bool) : Pen :=
  { p.space.puts s with spaced := false, fresh := p.fresh && ofIndentation }

/-- Writes a mark right after what is there. -/
def attach (p : Pen) (s : String) : Pen := { p.puts s with spaced := false, fresh := false }

end Pen

/-! ### Scalars -/

/-- Writes a plain text. -/
def plain (p : Pen) (s : String) : Pen := p.mark s false

/-- Writes the characters between single quotes. A line break is followed by the
indentation of the next line. -/
def singleQuotedBody (indent : Nat) (afterBreak : Bool) (p : Pen) : List Char → Pen
  | [] => if afterBreak then p.toColumn indent else p
  | c :: r =>
    if isBreak c then singleQuotedBody indent true { p.put c with fresh := true } r
    else
      let p := if afterBreak && c != ' ' then p.toColumn indent else p
      let p := if c == '\'' then p.put '\'' else p
      if c == ' ' then singleQuotedBody indent afterBreak (p.put c) r
      else singleQuotedBody indent false { p.put c with fresh := false } r

/-- Writes a text in single quotes. -/
def singleQuoted (indent : Nat) (p : Pen) (s : String) : Pen :=
  (singleQuotedBody indent false (p.mark "'" false) s.toList).attach "'"

/-- A character between double quotes. -/
def escape (c : Char) : String :=
  let n := c.toNat
  match c with
  | '\x00' => "\\0"
  | '\x07' => "\\a"
  | '\x08' => "\\b"
  | '\t' => "\\t"
  | '\n' => "\\n"
  | '\x0b' => "\\v"
  | '\x0c' => "\\f"
  | '\r' => "\\r"
  | '\x1b' => "\\e"
  | '"' => "\\\""
  | '\\' => "\\\\"
  | '\u0085' => "\\N"
  | '\u2028' => "\\L"
  | '\u2029' => "\\P"
  | c =>
    if isPrintable c then String.singleton c
    else if n ≤ 0xFF then "\\x" ++ String.ofList (Digit.capitals 2 n)
    else if n ≤ 0xFFFF then "\\u" ++ String.ofList (Digit.capitals 4 n)
    else "\\U" ++ String.ofList (Digit.capitals 8 n)

/-- Writes a text in double quotes. -/
def doubleQuoted (p : Pen) (s : String) : Pen :=
  (s.foldl (fun p c => p.puts (escape c)) (p.mark "\"" false)).attach "\""

/-- The indicators of a literal block: its indentation, if the first line does
not show it, and what becomes of the breaks at its end. -/
def literalHints (cs : List Char) : String :=
  let indentation := match cs with
    | c :: _ => if c == ' ' || isBreak c then "2" else ""
    | [] => ""
  let chomping := match cs.reverse with
    | a :: b :: _ => if !isBreak a then "-" else if isBreak b then "+" else ""
    | [a] => if isBreak a then "+" else "-"
    | [] => "-"
  indentation ++ chomping

/-- Writes the lines of a literal block. -/
def literalBody (indent : Nat) (afterBreak : Bool) (p : Pen) : List Char → Pen
  | [] => p
  | c :: r =>
    if isBreak c then literalBody indent true { p.put c with fresh := true } r
    else
      let p := if afterBreak then p.toColumn indent else p
      literalBody indent false { p.put c with fresh := false } r

/-- Writes a text as a literal block. -/
def literal (indent : Nat) (p : Pen) (s : String) : Pen :=
  let p := (p.mark "|" false).attach (literalHints s.toList)
  literalBody indent true { p.put '\n' with spaced := true, fresh := true } s.toList

/-- Writes a string; `indent` is for its further lines. -/
def string (simpleKey : Bool) (indent : Nat) (p : Pen) (s : String) : Pen :=
  match style simpleKey s with
  | .plain => plain p s
  | .singleQuoted => singleQuoted indent p s
  | .literal => literal indent p s
  | _ => doubleQuoted p s

/-! ### Tags -/

/-- A byte of a tag that needs no escape. -/
def isTagByte (b : UInt8) : Bool :=
  let c := Char.ofNat b.toNat
  b < 0x80 && (isNameChar c || ";/?:@&=+$,.~*'()[]".toList.contains c)

/-- The text of a tag name with other bytes escaped. -/
def tagText (name : String) : String :=
  String.join (name.toUTF8.data.toList.map fun b =>
    if isTagByte b then String.singleton (Char.ofNat b.toNat)
    else "%" ++ String.ofList (Digit.capitals 2 b.toNat))

/-- A tag name without the mark it may start with; the mark alone stays. -/
def withoutMark (name : String) : String := String.ofList (dropMark name.toList)

/-- The number of bytes that a local tag counts for. -/
def tagLength (name : String) : Nat :=
  if name == "!" then 1 else (withoutMark name).utf8ByteSize + 1

/-- Writes a local tag; the mark alone is written verbatim. -/
def tag (p : Pen) (name : String) : Pen :=
  if name == "!" then p.mark ("!<" ++ tagText name ++ ">") false
  else p.mark ("!" ++ tagText (withoutMark name)) false

/-! ### Values -/

/-- A key without a question mark has at most this many bytes. -/
def keyLimit : Nat := 128

/-- Whether a value can be a key without a question mark after tags of `before`
bytes. -/
def isSimpleKey (before : Nat) : Yaml → Bool
  | .tagged name v => isSimpleKey (before + tagLength name) v
  | .string s => !s.toList.any isLineBreak && before + s.utf8ByteSize ≤ keyLimit
  | .number n => before + (n.text .yaml).utf8ByteSize ≤ keyLimit
  | .bool b => before + (if b then 4 else 5) ≤ keyLimit
  | .null => before + 4 ≤ keyLimit
  | .sequence items => items.isEmpty && before ≤ keyLimit
  | .mapping entries => entries.isEmpty && before ≤ keyLimit

/-- Where a value stands. -/
inductive Place where
  /-- At the root of the document or as an item. -/
  | item
  /-- As a value, or as a key after a question mark. -/
  | entry
  /-- As a key without a question mark. -/
  | simpleKey
  deriving DecidableEq

/-- The indentation inside a collection, or of the further lines of a scalar:
two more columns than around it, and `outermost` if nothing is around it. -/
def deeper (outermost : Nat) : Option Nat → Nat
  | none => outermost
  | some n => n + 2

mutual

/-- Writes a value; `indent` is the column of the collection around it. -/
def write (place : Place) (indent : Option Nat) (p : Pen) : Yaml → Pen
  | .null => plain p "null"
  | .bool b => plain p (if b then "true" else "false")
  | .number n => plain p (n.text .yaml)
  | .string s => string (place = .simpleKey) (deeper 2 indent) p s
  | .tagged name v => write place indent (tag p name) v
  | .sequence [] => p.mark "[]" false
  | .sequence (v :: vs) =>
    let column := if place = .entry ∧ !p.fresh then indent.getD 0 else deeper 0 indent
    writeItems column p (v :: vs)
  | .mapping [] => p.mark "\x7b\x7d" false
  | .mapping (e :: es) => writeEntries (deeper 0 indent) p (e :: es)

/-- Writes the items of a sequence. -/
def writeItems (column : Nat) (p : Pen) : List Yaml → Pen
  | [] => p
  | v :: r =>
    let p := (p.toColumn column).mark "-" true
    writeItems column (write .item (some column) p v) r

/-- Writes the entries of a mapping. -/
def writeEntries (column : Nat) (p : Pen) : List (Yaml × Yaml) → Pen
  | [] => p
  | (k, v) :: r =>
    let p := p.toColumn column
    let p :=
      if isSimpleKey 0 k then (write .simpleKey (some column) p k).attach ":"
      else ((write .entry (some column) (p.mark "?" true) k).toColumn column).mark ":" true
    writeEntries column (write .entry (some column) p v) r

end

end Printer

/-- The text of a value, as one document without markers. -/
def render (v : Yaml) : String :=
  ((Printer.write .item none .empty v).toColumn 0).out

/-! ### Values without a text -/

/-- Whether a key could be taken for the tag of the mapping it is in: it carries a
tag, or it is a mapping of one entry. -/
def isTagLike : Yaml → Bool
  | .tagged _ _ => true
  | .mapping entries => entries.length == 1
  | _ => false

mutual

/-- Whether a value has a text; `tagged` if it stands under a tag. A mapping of
one entry without a tag has none if its key is tag-like. -/
def isWritable (tagged : Bool) : Yaml → Bool
  | .tagged _ v => isWritable true v
  | .sequence items => areItemsWritable items
  | .mapping entries =>
    (tagged || entries.length != 1 || !entries.any (isTagLike ·.1)) && areEntriesWritable entries
  | _ => true

/-- Whether some items have a text. -/
def areItemsWritable : List Yaml → Bool
  | [] => true
  | v :: r => isWritable false v && areItemsWritable r

/-- Whether some keys and values have a text. -/
def areEntriesWritable : List (Yaml × Yaml) → Bool
  | [] => true
  | (k, v) :: r => isWritable false k && isWritable false v && areEntriesWritable r

end

/-- The text of a value, if it has one. -/
def render? (v : Yaml) : Option String := if v.isWritable false then some v.render else none

end Yaml
end Graft
