import Graft.Yaml.Scalar
import Graft.Yaml.Schema

/-!
# Graft.Yaml.Token

The tokens of a YAML text, with its indentation turned into brackets.

* A block collection opens when a line starts deeper than the one around it and
  closes with `blockEnd`; `Scanner.indents` holds the columns that are open.
* A key without a question mark is recognised by the colon after it. Until then
  the scanner keeps where its first token is (`PendingKey`), and inserts the key
  token there once the colon comes. Such a key has to end on its line within
  `keyLimit` characters.
* A token that may still turn out to be a key is not settled. On an error only
  the tokens in front of it count.
* Every step but the last consumes a character, so the length of the text bounds
  their number.

The tokens end with `streamEnd` exactly when the whole text could be read.
-/

namespace Graft
namespace Yaml

/-- A token. -/
inductive Token where
  /-- A version directive. -/
  | version (major minor : Nat)
  /-- A directive that gives a tag handle its prefix. -/
  | tagPrefix (handle : String) (expansion : List UInt8)
  /-- `---` -/
  | documentStart
  /-- `...` -/
  | documentEnd
  /-- The end of the text. -/
  | streamEnd
  /-- The start of an indented sequence. -/
  | blockSequence
  /-- The start of an indented mapping. -/
  | blockMapping
  /-- The end of an indented collection. -/
  | blockEnd
  /-- `[` -/
  | openSequence
  /-- `]` -/
  | closeSequence
  /-- `{` -/
  | openMapping
  /-- `}` -/
  | closeMapping
  /-- `-` in front of an item. -/
  | item
  /-- `,` -/
  | comma
  /-- The start of a key. -/
  | key
  /-- The start of a value. -/
  | value
  /-- A reference to an anchor. -/
  | alias (name : String)
  /-- The name of the node that follows. -/
  | anchor (name : String)
  /-- The tag of the node that follows. -/
  | tag (handle : String) (suffix : List UInt8)
  /-- A scalar. -/
  | scalar (style : ScalarStyle) (text : String)
  deriving DecidableEq

/-! ### Tags and directives -/

/-- A tag handle here: a mark, or a name between two. -/
def takeHandle (c : Cursor) : String × Cursor :=
  let (name, after) := (c.skip 1).span isNameChar
  let (name, after) := match after.rest with
    | '!' :: _ => (name ++ ['!'], after.skip 1)
    | _ => (name, after)
  (String.ofList ('!' :: name), after)

/-- Whether a handle is closed by a second mark. -/
def isNamedHandle (handle : String) : Bool :=
  match handle.toList with
  | '!' :: c :: r => (c :: r).getLast? == some '!'
  | _ => false

/-- The tag here: verbatim, with a named handle, or local. What looks like an
unclosed handle is the start of a local tag. -/
def takeTag? (c : Cursor) : Option (Token × Cursor) := do
  match (c.skip 1).rest with
  | '<' :: _ =>
    let (uri, after) := (c.skip 2).span (isTagChar true)
    let bytes ← tagBytes? uri
    if uri.isEmpty || after.rest.head? != some '>' then none
    else return (.tag "" bytes, after.skip 1)
  | _ =>
    let (handle, after) := takeHandle c
    let (uri, finish) := after.span (isTagChar false)
    if isNamedHandle handle then
      let bytes ← tagBytes? uri
      if uri.isEmpty then none else return (.tag handle bytes, finish)
    else
      let bytes ← tagBytes? (handle.toList.drop 1 ++ uri)
      if bytes.isEmpty then return (.tag "" [tagMark], finish)
      else return (.tag "!" bytes, finish)

/-- A version number has at most this many digits. -/
def maxVersionDigits : Nat := 9

/-- The version number here. -/
def takeVersionNumber? (c : Cursor) : Option (Nat × Cursor) :=
  let (digits, after) := c.span Char.isDigit
  if digits.isEmpty || maxVersionDigits < digits.length then none
  else some (Decimal.readDigits 0 digits, after)

/-- The directive on this line. -/
def takeDirective? (c : Cursor) : Option (Token × Cursor) := do
  let (name, after) := (c.skip 1).span isNameChar
  if name.isEmpty || !atGap after.rest then none
  else if name == ['Y', 'A', 'M', 'L'] then
    let (major, after) ← takeVersionNumber? after.skipBlanks
    if after.rest.head? != some '.' then none
    else
      let (minor, after) ← takeVersionNumber? (after.skip 1)
      return (.version major minor, ← after.endLine?)
  else if name == ['T', 'A', 'G'] then
    let start := after.skipBlanks
    if start.rest.head? != some '!' then none
    else
      let (handle, after) := takeHandle start
      if (handle != "!" && !isNamedHandle handle) || !after.rest.head?.any isBlank then none
      else
        let (uri, after) := after.skipBlanks.span (isTagChar true)
        let bytes ← tagBytes? uri
        if uri.isEmpty || !atGap after.rest then none
        else return (.tagPrefix handle bytes, ← after.endLine?)
  else none

/-- The anchor or alias here: a name, followed by a gap or punctuation. -/
def takeName? (c : Cursor) : Option (String × Cursor) :=
  let (name, after) := (c.skip 1).span isNameChar
  let ends := atGap after.rest || after.rest.head?.any (fun x => "?:,]\x7d%@`".toList.contains x)
  if name.isEmpty || !ends then none else some (String.ofList name, after)

/-! ### Scanner -/

/-- A key whose colon has not come yet. -/
structure PendingKey where
  /-- The number of brackets around it. -/
  level : Nat
  /-- Whether it has to be a key, by its indentation. -/
  required : Bool
  /-- The number of its first token. -/
  number : Nat
  /-- Its line. -/
  line : Nat
  /-- Its column. -/
  column : Nat

/-- A key ends within this many characters. -/
def keyLimit : Nat := 1024

/-- The state between two tokens. -/
structure Scanner where
  /-- The position. -/
  cursor : Cursor
  /-- The tokens so far, latest first. -/
  tokens : List Token
  /-- Their number. -/
  count : Nat
  /-- The number of open brackets. -/
  flow : Nat
  /-- The column of the innermost block collection, `-1` outside of all. -/
  indent : Int
  /-- The columns around it. -/
  indents : List Int
  /-- Whether a key without a question mark can start here. -/
  keyAllowed : Bool
  /-- The pending keys, at most one on each level of brackets, innermost first. -/
  keys : List PendingKey

namespace Scanner

/-- The start of a text. -/
def start (cs : List Char) : Scanner :=
  { cursor := .start cs, tokens := [], count := 0, flow := 0, indent := -1, indents := [],
    keyAllowed := true, keys := [] }

/-- Appends a token. -/
def emit (s : Scanner) (t : Token) : Scanner :=
  { s with tokens := t :: s.tokens, count := s.count + 1 }

/-- Inserts a token in front of token `number`. -/
def insertAt (s : Scanner) (number : Nat) (t : Token) : Scanner :=
  { s with tokens := s.tokens.insertIdx (s.count - number) t, count := s.count + 1 }

/-- Appends a token and moves on. -/
def emitAt (s : Scanner) (t : Token) (c : Cursor) : Scanner := { s.emit t with cursor := c }

/-- The column of the position. -/
def column (s : Scanner) : Int := s.cursor.column

/-- Skips blanks, comments and line breaks. Tabs count as blanks where no key can
start, and inside brackets. -/
def skipGaps (flow keyAllowed comment : Bool) (line column : Nat) : List Char → Bool × Cursor
  | [] => (keyAllowed, ⟨[], line, column⟩)
  | c :: r =>
    if isBreak c then skipGaps flow (keyAllowed || !flow) false (line + 1) 0 r
    else if comment then skipGaps flow keyAllowed true line (column + 1) r
    else if c == byteOrderMark && column == 0 then
      skipGaps flow keyAllowed false line (column + 1) r
    else if c == ' ' || ((flow || !keyAllowed) && c == '\t') then
      skipGaps flow keyAllowed false line (column + 1) r
    else if c == '#' then skipGaps flow keyAllowed true line (column + 1) r
    else (keyAllowed, ⟨c :: r, line, column⟩)

/-- Moves to the next token. -/
def toNextToken (s : Scanner) : Scanner :=
  let c := s.cursor
  let (keyAllowed, cursor) := skipGaps (0 < s.flow) s.keyAllowed false c.line c.column c.rest
  { s with keyAllowed := keyAllowed, cursor := cursor }

/-- Gives up the pending keys that can no longer be followed by their colon;
`none` if one of them was required. -/
def dropStaleKeys? (s : Scanner) : Option Scanner :=
  let isStale : PendingKey → Bool := fun k =>
    k.line < s.cursor.line || k.column + keyLimit < s.cursor.column
  if s.keys.any fun k => k.required && isStale k then none
  else some { s with keys := s.keys.filter fun k => !isStale k }

/-- Gives up the pending key of this bracket level; `none` if it was required. -/
def dropKey? (s : Scanner) : Option Scanner :=
  match s.keys with
  | k :: r =>
    if k.level < s.flow then some s
    else if k.required then none
    else some { s with keys := r }
  | [] => some s

/-- Notes that the next token may start a key. -/
def noteKey? (s : Scanner) : Option Scanner :=
  if s.keyAllowed then do
    let s ← s.dropKey?
    let k : PendingKey :=
      { level := s.flow, required := s.flow == 0 && s.indent == s.column, number := s.count,
        line := s.cursor.line, column := s.cursor.column }
    return { s with keys := k :: s.keys }
  else some s

/-- Opens a block collection if the column is deeper than the innermost one. Its
token goes in front of token `number`. -/
def openBlock (s : Scanner) (column : Int) (number : Nat) (t : Token) : Scanner :=
  if s.flow = 0 ∧ s.indent < column then
    { s.insertAt number t with indents := s.indent :: s.indents, indent := column }
  else s

/-- Closes the block collections that are deeper than a column. -/
def closeDeeper (column : Int) (s : Scanner) : List Int → Scanner
  | [] => { s with indents := [] }
  | outer :: r =>
    if column < s.indent then closeDeeper column { s.emit .blockEnd with indent := outer } r
    else { s with indents := outer :: r }

/-- Closes the block collections that end before a column. -/
def closeBlocks (s : Scanner) (column : Int) : Scanner :=
  if s.flow = 0 then closeDeeper column s s.indents else s

/-! ### One token -/

/-- `---` or `...`, which ends every block collection. -/
def marker? (s : Scanner) (t : Token) : Option Scanner := do
  let s ← (s.closeBlocks (-1)).dropKey?
  return { s.emitAt t (s.cursor.skip 3) with keyAllowed := false }

/-- A directive. -/
def directive? (s : Scanner) : Option Scanner := do
  let s ← (s.closeBlocks (-1)).dropKey?
  let (t, c) ← takeDirective? s.cursor
  return { s.emitAt t c with keyAllowed := false }

/-- An opening bracket, which may start a key. -/
def openBracket? (s : Scanner) (t : Token) : Option Scanner := do
  let s ← s.noteKey?
  return { s.emitAt t (s.cursor.skip 1) with flow := s.flow + 1, keyAllowed := true }

/-- A closing bracket. -/
def closeBracket? (s : Scanner) (t : Token) : Option Scanner := do
  let s ← s.dropKey?
  return { s.emitAt t (s.cursor.skip 1) with flow := s.flow - 1, keyAllowed := false }

/-- A comma. -/
def comma? (s : Scanner) : Option Scanner := do
  let s ← s.dropKey?
  return { s.emitAt .comma (s.cursor.skip 1) with keyAllowed := true }

/-- A hyphen in front of an item. -/
def item? (s : Scanner) : Option Scanner :=
  if s.flow = 0 ∧ !s.keyAllowed then none else do
    let s ← (s.openBlock s.column s.count .blockSequence).dropKey?
    return { s.emitAt .item (s.cursor.skip 1) with keyAllowed := true }

/-- A question mark in front of a key. -/
def explicitKey? (s : Scanner) : Option Scanner :=
  if s.flow = 0 ∧ !s.keyAllowed then none else do
    let s ← (s.openBlock s.column s.count .blockMapping).dropKey?
    return { s.emitAt .key (s.cursor.skip 1) with keyAllowed := s.flow == 0 }

/-- A colon. The pending key, if there is one, turns out to be a key. -/
def colon? (s : Scanner) : Option Scanner :=
  match s.keys.head?.filter (·.level == s.flow) with
  | some k =>
    let s := { s.insertAt k.number .key with keys := s.keys.drop 1 }
    let s := s.openBlock k.column k.number .blockMapping
    some { s.emitAt .value (s.cursor.skip 1) with keyAllowed := false }
  | none =>
    if s.flow = 0 ∧ !s.keyAllowed then none else
      let s := s.openBlock s.column s.count .blockMapping
      some { s.emitAt .value (s.cursor.skip 1) with keyAllowed := s.flow == 0 }

/-- An anchor or an alias. -/
def name? (s : Scanner) (t : String → Token) : Option Scanner := do
  let s ← s.noteKey?
  let (name, c) ← takeName? s.cursor
  return { s.emitAt (t name) c with keyAllowed := false }

/-- A tag; a gap follows it, or a comma inside brackets. -/
def tag? (s : Scanner) : Option Scanner := do
  let s ← s.noteKey?
  let (t, c) ← takeTag? s.cursor
  if atGap c.rest || (0 < s.flow && c.rest.head? == some ',') then
    return { s.emitAt t c with keyAllowed := false }
  else none

/-- A block scalar, after which a new line starts. -/
def block? (s : Scanner) (literal : Bool) : Option Scanner := do
  let s ← s.dropKey?
  let (text, c) ← blockScalar? literal s.indent (s.cursor.skip 1)
  let style : ScalarStyle := if literal then .literal else .folded
  return { s.emitAt (.scalar style text) c with keyAllowed := true }

/-- A quoted scalar. -/
def quoted? (s : Scanner) (single : Bool) : Option Scanner := do
  let s ← s.noteKey?
  let c := s.cursor.skip 1
  if single then
    let (text, c) ← readSingleQuoted [] .none c.line c.column c.rest
    return { s.emitAt (.scalar .singleQuoted text) c with keyAllowed := false }
  else
    let (text, c) ← readDoubleQuoted [] .none .none c.line c.column c.rest
    return { s.emitAt (.scalar .doubleQuoted text) c with keyAllowed := false }

/-- A plain scalar. -/
def plain? (s : Scanner) : Option Scanner := do
  let s ← s.noteKey?
  let c := s.cursor
  let p ← readPlain (0 < s.flow) (s.indent + 1).toNat [] .none c.line c.column c.rest
  return { s.emitAt (.scalar .plain p.text) p.after with keyAllowed := p.broken }

/-- Whether a plain scalar can start with a character that `rest` follows. -/
def startsPlain (flow : Bool) (c : Char) (rest : List Char) : Bool :=
  if isBlank c || isBreak c then false
  else if c == '-' then !rest.head?.any isBlank
  else if c == '?' || c == ':' then !flow && !atGap rest
  else !",[]\x7b\x7d#&*!|>'\"%@`".toList.contains c

/-- The token at the position, by its first character. -/
def dispatch? (s : Scanner) (c : Char) (r : List Char) : Option Scanner :=
  let flow := 0 < s.flow
  let column := s.cursor.column
  if column = 0 ∧ c = '%' then s.directive?
  else if startsMarker column (c :: r) then s.marker? (if c = '-' then .documentStart else .documentEnd)
  else if c = '[' then s.openBracket? .openSequence
  else if c = '{' then s.openBracket? .openMapping
  else if c = ']' then s.closeBracket? .closeSequence
  else if c = '}' then s.closeBracket? .closeMapping
  else if c = ',' then s.comma?
  else if c = '-' ∧ atGap r then s.item?
  else if c = '?' ∧ (flow ∨ atGap r) then s.explicitKey?
  else if c = ':' ∧ (flow ∨ atGap r) then s.colon?
  else if c = '*' then s.name? .alias
  else if c = '&' then s.name? .anchor
  else if c = '!' then s.tag?
  else if c = '|' ∧ ¬flow then s.block? true
  else if c = '>' ∧ ¬flow then s.block? false
  else if c = '\'' then s.quoted? true
  else if c = '"' then s.quoted? false
  else if startsPlain flow c r then s.plain?
  else none

/-- The end of the text. -/
def finish? (s : Scanner) : Option Scanner := do
  let s ← (s.closeBlocks (-1)).dropKey?
  return s.emit .streamEnd

/-- This many characters decide which token starts at a position. -/
def lookahead : Nat := 4

/-- The state after the next token and the ends of collections in front of it. Of a
text that is cut off (`whole` is false) enough has to be left to tell the token,
and a character behind it. -/
def step? (whole : Bool) (s : Scanner) : Option Scanner := do
  let s ← s.toNextToken.dropStaleKeys?
  if !whole && (s.cursor.rest.drop (lookahead - 1)).isEmpty then none
  else
    let s := s.closeBlocks s.column
    match s.cursor.rest with
    | [] => s.finish?
    | c :: r =>
      let s ← s.dispatch? c r
      if !whole && s.cursor.rest.isEmpty then none else return s

/-- The tokens that stay as they are whatever follows, latest first: those in
front of the first one that may still turn out to be a key. -/
def settled (s : Scanner) : List Token :=
  let s := s.dropStaleKeys?.getD s
  match s.keys.getLast? with
  | some k => s.tokens.drop (s.count - k.number)
  | none => s.tokens

/-- All tokens, latest first, in `fuel` steps at most; on an error those that are
settled in front of it. -/
def run (whole : Bool) : Nat → Scanner → List Token
  | 0, s => s.settled
  | fuel + 1, s =>
    match s.step? whole with
    | none => s.settled
    | some s => if s.tokens.head? == some .streamEnd then s.tokens else run whole fuel s

end Scanner

/-- The tokens of a text. Of a text that is cut off, those in front of the cut. -/
def Token.scan (text : String) : List Token :=
  let (cs, whole) := readable text.toList
  (Scanner.run whole (cs.length + 1) (.start (unifyBreaks [] cs))).reverse

end Yaml
end Graft
