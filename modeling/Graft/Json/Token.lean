import Graft.Json
import Graft.Number.Digit

/-!
# Graft.Json.Token

The tokens of a JSON text: punctuation, strings with their escapes resolved,
numbers and the three literal names.

`Token.scan?` is one pass over the characters. A word is a run of characters
outside strings, space and punctuation; it has to be a number or a literal name
as a whole, so a numeral with something attached to it is no token.

Reading a numeral keeps its digits as a 64-bit significand. Once the next digit
no longer fits, further digits of the whole part only raise the exponent and
further digits of the fraction are dropped; the significand is then rounded to a
double and multiplied or divided by one rounded power of ten at a time.
-/

namespace Graft
namespace Json

/-- A token. -/
inductive Token where
  /-- `[` -/
  | openArray
  /-- `]` -/
  | closeArray
  /-- `{` -/
  | openObject
  /-- `}` -/
  | closeObject
  /-- `,` -/
  | comma
  /-- `:` -/
  | colon
  /-- A string, unescaped. -/
  | text (value : String)
  /-- A number or one of `null`, `true` and `false`. -/
  | atom (value : Json)

/-! ### Strings -/

/-- The number written by four hexadecimal digits. -/
def hexUnit? (a b c d : Char) : Option Nat := Digit.read? 16 0 [a, b, c, d]

/-- The character a one-letter escape stands for. -/
def simpleEscape? : Char → Option Char
  | '"' => some '"'
  | '\\' => some '\\'
  | '/' => some '/'
  | 'b' => some '\x08'
  | 'f' => some '\x0c'
  | 'n' => some '\n'
  | 'r' => some '\r'
  | 't' => some '\t'
  | _ => none

/-- Resolves the escapes in the body of a string, onto the reversed `acc`.
Control characters have to be escaped, and the two halves of a surrogate pair
have to follow each other. -/
def unescape? (acc : List Char) : List Char → Option (List Char)
  | [] => some acc.reverse
  | '\\' :: 'u' :: a :: b :: c :: d :: '\\' :: 'u' :: e :: f :: g :: h :: r => do
    let first ← hexUnit? a b c d
    let second ← hexUnit? e f g h
    if 0xD800 ≤ first ∧ first ≤ 0xDBFF then
      if 0xDC00 ≤ second ∧ second ≤ 0xDFFF then
        let code := 0x10000 + (first - 0xD800) * 0x400 + (second - 0xDC00)
        unescape? (Char.ofNat code :: acc) r
      else none
    else if 0xDC00 ≤ first ∧ first ≤ 0xDFFF then none
    else unescape? (Char.ofNat first :: acc) ('\\' :: 'u' :: e :: f :: g :: h :: r)
  | '\\' :: 'u' :: a :: b :: c :: d :: r => do
    let unit ← hexUnit? a b c d
    if 0xD800 ≤ unit ∧ unit ≤ 0xDFFF then none
    else unescape? (Char.ofNat unit :: acc) r
  | '\\' :: c :: r => do
    let c ← simpleEscape? c
    unescape? (c :: acc) r
  | c :: r => if c = '\\' ∨ c.toNat < 0x20 then none else unescape? (c :: acc) r
termination_by cs => cs.length

/-! ### Numbers -/

/-- The greatest significand. -/
def maxSignificand : Nat := Width.bound64 - 1

/-- Takes digits into the significand as long as they fit. The digits that no
longer fit are returned. -/
def takeSignificand (n : Nat) : List Char → Nat × List Char
  | [] => (n, [])
  | c :: r =>
    let m := n * 10 + Decimal.digitValue c
    if m ≤ maxSignificand then takeSignificand m r else (n, c :: r)

/-- The rounded power of ten. -/
def powerOfTen (k : Nat) : Binary64 := .ofNat (Nat.pow 10 k)

/-- `significand · 10 ^ exponent` by stepwise rounding, `none` beyond the largest
double. An exponent below `-308` is worked off in steps of that size, and after
`fuel` of them nothing but zero is left. -/
def stepwise? (x : Binary64) : Nat → Int → Option Binary64
  | fuel, e =>
    if e.natAbs ≤ 308 then
      if 0 ≤ e then
        let y := x.mul (powerOfTen e.natAbs)
        if y.isFinite then some y else none
      else some (x.div (powerOfTen e.natAbs))
    else if x.isZero then some x
    else if 0 ≤ e then none
    else match fuel with
      | 0 => some (.zero false)
      | fuel + 1 => stepwise? (x.div (powerOfTen 308)) fuel (e + 308)

/-- The first exponent that does not fit in 32 bits with a sign. -/
def exponentBound : Nat := 2147483648

/-- Exponents are cut off at the bounds of 32 bits with a sign. -/
def clampExponent (e : Int) : Int :=
  max (-(exponentBound : Int)) (min ((exponentBound : Int) - 1) e)

/-- The double of a significand and an exponent. -/
def float? (negative : Bool) (significand : Nat) (e : Int) : Option Json := do
  let x ← stepwise? (.ofNat significand) 4 e
  return .number (.float (if negative then x.neg else x))

/-- The digits of an exponent with an optional sign. -/
def exponent? : List Char → Option Int
  | '+' :: r => if Decimal.isDigits r then some (Decimal.readDigits 0 r) else none
  | '-' :: r => if Decimal.isDigits r then some (-(Decimal.readDigits 0 r)) else none
  | r => if Decimal.isDigits r then some (Decimal.readDigits 0 r) else none

/-- The double of a numeral whose exponent part is `rest`. An exponent beyond 32
bits is too large unless the significand is zero or the exponent negative. -/
def withExponent? (negative : Bool) (significand : Nat) (e : Int) (rest : List Char) :
    Option Json :=
  match rest with
  | [] => float? negative significand e
  | c :: r =>
    if c = 'e' ∨ c = 'E' then
      match exponent? r with
      | none => none
      | some x =>
        if x.natAbs < exponentBound then float? negative significand (clampExponent (e + x))
        else if significand ≠ 0 ∧ 0 ≤ x then none
        else some (.number (.float (.zero negative)))
    else none

/-- The number without fraction and exponent: an integer where it fits, and a
double beyond that. The integer zero has no sign. -/
def integer (negative : Bool) (n : Nat) : Json :=
  if negative then
    if n ≠ 0 ∧ n ≤ Width.half64 then .number (.int (-(n : Int)))
    else .number (.float ((Binary64.ofNat n).neg))
  else .number (.int n)

/-- A numeral: a whole part without superfluous zeros, an optional fraction, an
optional exponent. -/
def number? (word : List Char) : Option Json := do
  let (negative, body) := match word with
    | '-' :: r => (true, r)
    | r => (false, r)
  let whole := body.takeWhile Char.isDigit
  let rest := body.dropWhile Char.isDigit
  if whole.isEmpty || (whole.head? == some '0' && 1 < whole.length) then none else
    let (significand, left) := takeSignificand 0 whole
    let e : Int := left.length
    match rest with
    | [] =>
      if left.isEmpty then some (integer negative significand)
      else float? negative significand e
    | '.' :: r =>
      let fraction := r.takeWhile Char.isDigit
      let rest := r.dropWhile Char.isDigit
      if fraction.isEmpty then none else
        let (significand, dropped) := takeSignificand significand fraction
        withExponent? negative significand (e - (fraction.length - dropped.length : Nat)) rest
    | r => withExponent? negative significand e r

/-- The token of a word. -/
def Token.ofWord? (word : List Char) : Option Token :=
  match word with
  | ['n', 'u', 'l', 'l'] => some (.atom .null)
  | ['t', 'r', 'u', 'e'] => some (.atom (.bool true))
  | ['f', 'a', 'l', 's', 'e'] => some (.atom (.bool false))
  | w => (number? w).map .atom

/-! ### One pass over the text -/

/-- What the scan is inside of; collected characters are reversed. -/
inductive Mode where
  /-- Between tokens. -/
  | between
  /-- In a word. -/
  | word (letters : List Char)
  /-- In a string; `escaped` after a backslash. -/
  | quoted (body : List Char) (escaped : Bool)

/-- The effect of a character between tokens: the tokens it completes, latest
first, and the mode after it. -/
def startToken (acc : List Token) (c : Char) : List Token × Mode :=
  match c with
  | ' ' | '\t' | '\n' | '\r' => (acc, .between)
  | '[' => (.openArray :: acc, .between)
  | ']' => (.closeArray :: acc, .between)
  | '{' => (.openObject :: acc, .between)
  | '}' => (.closeObject :: acc, .between)
  | ',' => (.comma :: acc, .between)
  | ':' => (.colon :: acc, .between)
  | '"' => (acc, .quoted [] false)
  | c => (acc, .word [c])

/-- Whether a character ends a word. -/
def endsWord (c : Char) : Bool :=
  match c with
  | ' ' | '\t' | '\n' | '\r' | '[' | ']' | '{' | '}' | ',' | ':' | '"' => true
  | _ => false

/-- The scan, onto the reversed `acc`. -/
def scanFrom (acc : List Token) (mode : Mode) : List Char → Option (List Token)
  | [] =>
    match mode with
    | .between => some acc.reverse
    | .word letters => (Token.ofWord? letters.reverse).map fun t => (t :: acc).reverse
    | .quoted _ _ => none
  | c :: r =>
    match mode with
    | .between =>
      let (acc, mode) := startToken acc c
      scanFrom acc mode r
    | .word letters =>
      if endsWord c then
        match Token.ofWord? letters.reverse with
        | some t =>
          let (acc, mode) := startToken (t :: acc) c
          scanFrom acc mode r
        | none => none
      else scanFrom acc (.word (c :: letters)) r
    | .quoted body true => scanFrom acc (.quoted (c :: body) false) r
    | .quoted body false =>
      if c = '"' then
        match unescape? [] body.reverse with
        | some s => scanFrom (.text (String.ofList s) :: acc) .between r
        | none => none
      else scanFrom acc (.quoted (c :: body) (c = '\\')) r

/-- The tokens of a text. -/
def Token.scan? (cs : List Char) : Option (List Token) := scanFrom [] .between cs

end Json
end Graft
