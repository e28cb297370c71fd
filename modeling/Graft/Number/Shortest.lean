import Graft.Number.Binary64

/-!
# Graft.Number.Shortest

The shortest decimal that reads back as a given double.

The reals that round to `m · 2 ^ e` form an interval around it, ends included
exactly when `m` is even. A decimal of `n` digits is a point of a grid of powers
of ten, and if any point of a grid lies in the interval, one of the two
neighbours of the number does. So the grids are tried from one digit on, the
first with a hit wins, and of two hits the nearer is taken, of two equally near
the even one.
-/

namespace Graft
namespace Shortest

/-- The reals that round to a double, with the double itself, all as multiples
of one unit `num / den`. -/
structure Interval where
  /-- The lower end. -/
  lower : Nat
  /-- The double. -/
  middle : Nat
  /-- The upper end. -/
  upper : Nat
  /-- Whether both ends round to the double too. -/
  closed : Bool

/-- The interval of `m · 2 ^ e` in quarters of `2 ^ e`. Below a power of two the
next double is half as far away. -/
def Interval.of (m : Nat) (e : Int) : Interval where
  lower := if m = Nat.pow 2 52 ∧ e ≠ Binary64.minExponent then 4 * m - 1 else 4 * m - 2
  middle := 4 * m
  upper := 4 * m + 2
  closed := m % 2 = 0

/-- Whether a multiple of the unit lies in the interval. -/
def Interval.contains (i : Interval) (x : Nat) : Bool :=
  (i.lower < x && x < i.upper) || (i.closed && (x == i.lower || x == i.upper))

/-- The interval with every bound multiplied by `k`. -/
def Interval.scale (i : Interval) (k : Nat) : Interval :=
  ⟨i.lower * k, i.middle * k, i.upper * k, i.closed⟩

/-- The point of the grid of multiples of `step` that reads back, if a
neighbour of the middle does: of two the nearer one, and at the same distance the
even one. -/
def gridPoint? (i : Interval) (step : Nat) : Option Nat :=
  let below := i.middle / step
  let above := below + 1
  match i.contains (below * step), i.contains (above * step) with
  | true, true =>
    let down := i.middle - below * step
    let up := above * step - i.middle
    some (if down < up ∨ (down = up ∧ below % 2 = 0) then below else above)
  | true, false => some below
  | false, true => some above
  | false, false => none

/-- Tries the grids of `10 ^ k`, `10 ^ (k - 1)`, … in that order, `fuel` of
them. The interval counts in units of `1 / den`. -/
def search (i : Interval) (den : Nat) : Nat → Int → Option (Nat × Int)
  | 0, _ => none
  | fuel + 1, k =>
    let hit := if 0 ≤ k then gridPoint? i (den * Nat.pow 10 k.toNat)
      else gridPoint? (i.scale (Nat.pow 10 (-k).toNat)) den
    match hit with
    | some d => some (d, k)
    | none => search i den fuel (k - 1)

/-- Removes trailing zeros, `fuel` of them at most. -/
def trim : Nat → Nat → Int → Nat × Int
  | 0, d, k => (d, k)
  | fuel + 1, d, k => if d % 10 = 0 ∧ d ≠ 0 then trim fuel (d / 10) (k + 1) else (d, k)

/-- The digits and the power of ten of `m · 2 ^ e` itself. -/
def exact (m : Nat) (e : Int) : Nat × Int :=
  if 0 ≤ e then (m * Nat.pow 2 e.toNat, 0) else (m * Nat.pow 5 (-e).toNat, e)

/-- The digits and the power of ten of the shortest decimal that reads back as
`m · 2 ^ e`. The search starts above the largest grid that can have a hit, and
every double has a hit with seventeen digits; without one the exact value would
do. -/
def digits (m : Nat) (e : Int) : Nat × Int :=
  if m = 0 then (0, 0) else
    let quarter := e - 2
    let (i, den) := if 0 ≤ quarter then ((Interval.of m e).scale (Nat.pow 2 quarter.toNat), 1)
      else (Interval.of m e, Nat.pow 2 (-quarter).toNat)
    let length : Nat → Int := fun n => (Nat.toDigits 10 n).length
    let start : Int := length i.middle - length den + 1
    match search i den 24 start with
    | some (d, k) => trim 24 d k
    | none => exact m e

end Shortest
end Graft
