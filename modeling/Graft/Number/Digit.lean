/-!
# Graft.Number.Digit

Digits of the bases up to sixteen.
-/

namespace Graft
namespace Digit

/-- The value of a hexadecimal digit, in letters of either case. -/
def value? (c : Char) : Option Nat :=
  if c.isDigit then some (c.toNat - '0'.toNat)
  else if 'a' ≤ c ∧ c ≤ 'f' then some (c.toNat - 'a'.toNat + 10)
  else if 'A' ≤ c ∧ c ≤ 'F' then some (c.toNat - 'A'.toNat + 10)
  else none

/-- The natural number written by digits of some base, continued from `acc`. -/
def read? (base : Nat) (acc : Nat) : List Char → Option Nat
  | [] => some acc
  | c :: r =>
    match value? c with
    | some d => if d < base then read? base (acc * base + d) r else none
    | none => none

/-- The hexadecimal digit of a value below sixteen, in small letters. -/
def small (n : Nat) : Char :=
  Char.ofNat (if n < 10 then '0'.toNat + n else 'a'.toNat + (n - 10))

/-- The hexadecimal digit of a value below sixteen, in capitals. -/
def capital (n : Nat) : Char :=
  Char.ofNat (if n < 10 then '0'.toNat + n else 'A'.toNat + (n - 10))

/-- A number in a fixed count of hexadecimal capitals, the low ones kept. -/
def capitals : Nat → Nat → List Char
  | 0, _ => []
  | width + 1, n => capitals width (n / 16) ++ [capital (n % 16)]

end Digit
end Graft
