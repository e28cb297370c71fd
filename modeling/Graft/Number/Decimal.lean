import Graft.Number.Binary64

/-!
# Graft.Number.Decimal

Decimal numerals: the text of a number in positional or exponent form, its
exact value, and the nearest double.

A numeral has digits, at most one point with a digit on some side of it, and an
optional exponent. `Decimal.parse?` accepts exactly these texts.
-/

namespace Graft

/-- The number `digits · 10 ^ exponent`. -/
structure Decimal where
  /-- All digits of the numeral read as one natural number. -/
  digits : Nat
  /-- The power of ten they are counted in. -/
  exponent : Int
  deriving DecidableEq

namespace Decimal

/-- The value of a decimal digit. -/
def digitValue (c : Char) : Nat := c.toNat - '0'.toNat

/-- The natural number written by decimal digits, continued from `acc`. -/
def readDigits (acc : Nat) (cs : List Char) : Nat :=
  cs.foldl (fun n c => n * 10 + digitValue c) acc

/-- Whether a text is one or more decimal digits. -/
def isDigits (cs : List Char) : Bool := !cs.isEmpty && cs.all Char.isDigit

/-- An optional sign in front of a text: whether it is a minus, and the rest. -/
def takeSign : List Char → Bool × List Char
  | '-' :: r => (true, r)
  | '+' :: r => (false, r)
  | r => (false, r)

/-- An integer of one or more digits with an optional sign. -/
def parseInt? (cs : List Char) : Option Int :=
  let (negative, r) := takeSign cs
  if isDigits r then
    let n := readDigits 0 r
    some (if negative then -(n : Int) else n)
  else none

/-- The exponent part that may follow the digits of a numeral. -/
def parseExponent? : List Char → Option Int
  | [] => some 0
  | c :: r => if c = 'e' ∨ c = 'E' then parseInt? r else none

/-- An unsigned numeral. -/
def parse? (cs : List Char) : Option Decimal := do
  let whole := cs.takeWhile Char.isDigit
  let rest := cs.dropWhile Char.isDigit
  let (fraction, rest) := match rest with
    | '.' :: r => (r.takeWhile Char.isDigit, r.dropWhile Char.isDigit)
    | r => ([], r)
  if whole.isEmpty && fraction.isEmpty then none else
    let e ← parseExponent? rest
    some ⟨readDigits (readDigits 0 whole) fraction, e - fraction.length⟩

/-- The nearest double. Numerals far outside the range of doubles are settled
before a power of ten of that size is formed: the binary length of the digits
bounds the decimal one, as `10 ^ 3 < 2 ^ 10` and `2 ^ 3 < 10`. -/
def toBinary64 (negative : Bool) (d : Decimal) : Binary64 :=
  if d.digits = 0 then .zero negative else
    let bits := d.digits.log2
    if 400 < d.exponent + (bits * 3 / 10 : Nat) then .infinite negative
    else if d.exponent + (bits / 3 + 1 : Nat) < -400 then .zero negative
    else if 0 ≤ d.exponent then .ofRatio negative (d.digits * Nat.pow 10 d.exponent.toNat) 1
    else .ofRatio negative d.digits (Nat.pow 10 (-d.exponent).toNat)

end Decimal

/-- The double a text stands for: a numeral, `inf`, `infinity` or `nan` in any
case, each with an optional sign. -/
def Binary64.parse? (cs : List Char) : Option Binary64 :=
  let (negative, r) := Decimal.takeSign cs
  match Decimal.parse? r with
  | some d => some (d.toBinary64 negative)
  | none =>
    match r.map Char.toLower with
    | ['i', 'n', 'f'] => some (.infinite negative)
    | ['i', 'n', 'f', 'i', 'n', 'i', 't', 'y'] => some (.infinite negative)
    | ['n', 'a', 'n'] => some .nan
    | _ => none

end Graft
