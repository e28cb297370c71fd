import Graft.Number.Width

/-!
# Graft.Number.Binary64

Double precision numbers as exact data. A finite number is kept as
`± mantissa · 2 ^ exponent`, so every operation below is integer arithmetic
followed by one rounding, and a statement about it is a statement about
natural numbers.

Only `ofRatio` rounds: it takes the quotient of two naturals to the nearest
double, ties to the even mantissa. Reading a decimal, multiplying and dividing
are that one step on different quotients.
-/

namespace Graft

/-- A double. `finite s m e` stands for `± m · 2 ^ e`; the values built here
have `m < 2 ^ 53` and either `2 ^ 52 ≤ m` or `e = -1074`, which makes the
representation unique. -/
inductive Binary64 where
  /-- Not a number; there is one of them. -/
  | nan
  /-- An infinity. -/
  | infinite (negative : Bool)
  /-- A finite number; zero carries a sign. -/
  | finite (negative : Bool) (mantissa : Nat) (exponent : Int)
  deriving DecidableEq, Inhabited

namespace Binary64

/-! ### Range -/

/-- The exponent of the subnormal numbers. -/
def minExponent : Int := -1074

/-- The exponent of the largest finite numbers. -/
def maxExponent : Int := 971

/-- Mantissas are below this power of two. -/
def mantissaBound : Nat := Nat.pow 2 53

/-- Positive or negative zero. -/
def zero (negative : Bool) : Binary64 := .finite negative 0 minExponent

/-! ### Rounding -/

/-- The natural number nearest to `num / den`; a half goes to the even one. -/
def roundHalfEven (num den : Nat) : Nat :=
  let q := num / den
  let twice := 2 * (num % den)
  if twice < den then q
  else if den < twice then q + 1
  else q + q % 2

/-- The quotient `(num / den) / 2 ^ e`, again as a numerator and a denominator. -/
def scaled (num den : Nat) (e : Int) : Nat × Nat :=
  if 0 ≤ e then (num, den * Nat.pow 2 e.toNat) else (num * Nat.pow 2 (-e).toNat, den)

/-- The exponent at which `num / den` has a mantissa below `mantissaBound`.
The binary lengths of both numbers leave two candidates. -/
def exponentOf (num den : Nat) : Int :=
  let guess := max ((num.log2 : Int) - den.log2 - 53) minExponent
  let (n, d) := scaled num den guess
  if n / d < mantissaBound then guess else guess + 1

/-- The double nearest to `± num / den`, for a positive `den`. Quotients beyond
the largest finite number become infinite. -/
def ofRatio (negative : Bool) (num den : Nat) : Binary64 :=
  if num = 0 then zero negative else
    let e := exponentOf num den
    let (n, d) := scaled num den e
    let m := roundHalfEven n d
    let (m, e) := if m = mantissaBound then (m / 2, e + 1) else (m, e)
    if maxExponent < e then .infinite negative else .finite negative m e

/-- The double nearest to a natural number. -/
def ofNat (n : Nat) : Binary64 := ofRatio false n 1

/-! ### Arithmetic -/

/-- Whether the number is neither infinite nor a NaN. -/
def isFinite : Binary64 → Bool
  | .finite .. => true
  | _ => false

/-- Whether the number is a zero of either sign. -/
def isZero : Binary64 → Bool
  | .finite _ 0 _ => true
  | _ => false

/-- The number with its sign turned round. -/
def neg : Binary64 → Binary64
  | .nan => .nan
  | .infinite s => .infinite !s
  | .finite s m e => .finite (!s) m e

/-- The rounded product of two finite numbers. -/
def mul : Binary64 → Binary64 → Binary64
  | .finite s m e, .finite t n f =>
    let (num, den) := scaled (m * n) 1 (-(e + f))
    ofRatio (s != t) num den
  | _, _ => .nan

/-- The rounded quotient of two finite numbers, the second one not zero. -/
def div : Binary64 → Binary64 → Binary64
  | .finite s m e, .finite t n f =>
    if n = 0 then .nan else
      let (num, den) := scaled m n (f - e)
      ofRatio (s != t) num den
  | _, _ => .nan

/-- Equality of numbers used as keys: both zeros are equal, and so is a NaN to
itself. -/
def sameNumber (x y : Binary64) : Bool :=
  x == y || (x.isZero && y.isZero)

end Binary64
end Graft
