import Graft.Yaml
import Graft.Yaml.Tag

/-!
# Graft.Yaml.Schema

What the text of a scalar means.

A plain text is null, a truth value, an integer, a double or, failing all of
these, a string. Integers are decimal, `0x`, `0o` or `0b` with an optional sign;
digits after a leading zero make a string, so that identifiers such as `007`
keep their text. An integer that needs more than 64 but not more than 128 bits
is refused, and one beyond that is read as a double.

A scalar that is not plain is a string. The core tags ask for one kind and
refuse a text of another; a local tag keeps the meaning the scalar has without
it.
-/

namespace Graft
namespace Yaml

/-- How a scalar is written. -/
inductive ScalarStyle where
  /-- Without quotes. -/
  | plain
  /-- In single quotes. -/
  | singleQuoted
  /-- In double quotes. -/
  | doubleQuoted
  /-- As a block that keeps its line breaks. -/
  | literal
  /-- As a block that folds its line breaks. -/
  | folded
  deriving DecidableEq

/-! ### Plain texts -/

/-- The texts of null, the empty text apart. -/
def isNullText (s : String) : Bool := s == "null" || s == "Null" || s == "NULL" || s == "~"

/-- The texts of truth values. -/
def boolOfText? (s : String) : Option Bool :=
  if s == "true" || s == "True" || s == "TRUE" then some true
  else if s == "false" || s == "False" || s == "FALSE" then some false
  else none

/-- The text without one sign in front. -/
def dropSign : List Char → List Char
  | '-' :: r => r
  | '+' :: r => r
  | r => r

/-- Digits after a leading zero, with an optional sign: text, not a number. -/
def isZeroPadded (cs : List Char) : Bool :=
  match dropSign cs with
  | '0' :: c :: r => (c :: r).all Char.isDigit
  | _ => false

/-- A natural number: prefixed digits of its base, or decimal digits. -/
def naturalOfText? : List Char → Option Nat
  | '0' :: 'x' :: c :: r => Digit.read? 16 0 (c :: r)
  | '0' :: 'o' :: c :: r => Digit.read? 8 0 (c :: r)
  | '0' :: 'b' :: c :: r => Digit.read? 2 0 (c :: r)
  | c :: r => Digit.read? 10 0 (c :: r)
  | [] => none

/-- What an integer text amounts to. -/
inductive IntText where
  /-- Not an integer, or one beyond 128 bits. -/
  | none
  /-- An integer beyond 64 bits. -/
  | tooLarge
  /-- An integer that plain data holds. -/
  | int (value : Int)

/-- Reads an integer text. -/
def IntText.of (cs : List Char) : IntText :=
  if isZeroPadded cs then .none else
    match cs with
    | '-' :: r =>
      match naturalOfText? r with
      | some n => if n ≤ Width.half64 then .int (-(n : Int)) else if n ≤ Width.half128 then .tooLarge else .none
      | Option.none => .none
    | _ =>
      let digits := match cs with
        | '+' :: r => r
        | r => r
      match naturalOfText? digits with
      | some n => if n < Width.bound64 then .int n else if n < Width.bound128 then .tooLarge else .none
      | Option.none => .none

/-- The double a text stands for. Infinities and the NaN are spelled with a
point; a numeral that overflows is no double. -/
def doubleOfText? (cs : List Char) : Option Binary64 :=
  let (plus, body) := match cs with
    | '+' :: r => (true, r)
    | r => (false, r)
  let signed := match body with
    | '+' :: _ => true
    | '-' :: _ => true
    | _ => false
  if plus && signed then none else
    let s := String.ofList cs
    let t := String.ofList body
    if t == ".inf" || t == ".Inf" || t == ".INF" then some (.infinite false)
    else if s == "-.inf" || s == "-.Inf" || s == "-.INF" then some (.infinite true)
    else if s == ".nan" || s == ".NaN" || s == ".NAN" then some .nan
    else
      match Binary64.parse? body with
      | some x => if x.isFinite then some x else none
      | none => none

/-- The value of a plain text, if it is not an integer out of range. -/
def ofPlain? (text : String) : Option Yaml :=
  if text.isEmpty || isNullText text then some .null else
    match boolOfText? text with
    | some b => some (.bool b)
    | none =>
      let cs := text.toList
      match IntText.of cs with
      | .int n => some (.number (.int n))
      | .tooLarge => none
      | .none =>
        if isZeroPadded cs then some (.string text) else
          match doubleOfText? cs with
          | some x => some (.number (.float x))
          | none => some (.string text)

/-- Whether a text would mean something else than itself if written plain, or
looks like a number to other readers. -/
def needsQuotes (text : String) : Bool :=
  isZeroPadded text.toList ||
    match ofPlain? text with
    | some (.string _) => false
    | _ => true

/-! ### Tags -/

/-- A container under a tag: only local tags are kept. -/
def withTag (tag : Option Tag) (v : Yaml) : Yaml :=
  match tag with
  | some (.local name) => .tagged name v
  | _ => v

/-- The value of a scalar without a core tag. -/
def ofUntagged? (style : ScalarStyle) (text : String) : Option Yaml :=
  if style = .plain then ofPlain? text else some (.string text)

/-- The value of a scalar, if its text fits its tag. -/
def ofScalar? (tag : Option Tag) (style : ScalarStyle) (text : String) : Option Yaml :=
  match tag with
  | none => ofUntagged? style text
  | some (.local name) => (ofUntagged? style text).map (.tagged name)
  | some .other => some (.string text)
  | some .bool => (boolOfText? text).map .bool
  | some .null => if isNullText text then some .null else none
  | some .float => (doubleOfText? text.toList).map fun x => .number (.float x)
  | some .int =>
    match IntText.of text.toList with
    | .int n => some (.number (.int n))
    | _ => none

end Yaml
end Graft
