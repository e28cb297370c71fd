import Graft.Number.Decimal
import Graft.Number.Shortest

/-!
# Graft.Number

Numbers of plain data, as both text formats know them: an integer or a double.
The digits of a written double are the fewest that read back
(`Graft.Number.Shortest`); how they are laid out is one record per format.
-/

namespace Graft

/-- How the digits of a double are laid out. -/
structure FloatLayout where
  /-- The least decimal exponent written in positional form. -/
  lowestPositional : Int
  /-- The greatest decimal exponent written in positional form. -/
  highestPositional : Int
  /-- Whether a positive exponent carries a sign. -/
  plusSign : Bool

namespace FloatLayout

/-- YAML writes positional digits from `10 ^ -5` to below `10 ^ 16`, and bare
exponents outside. -/
def yaml : FloatLayout := ⟨-5, 15, false⟩

/-- JSON uses the same range and signs its exponents. -/
def json : FloatLayout := ⟨-5, 15, true⟩

/-- The text of `digits · 10 ^ k`: positional, with at least one digit after
the point, or one digit, an optional fraction and an exponent. -/
def render (layout : FloatLayout) (digits : Nat) (k : Int) : String :=
  let ds := Nat.toDigits 10 digits
  let exponent := k + ds.length - 1
  if layout.lowestPositional ≤ exponent ∧ exponent ≤ layout.highestPositional then
    if 0 ≤ k then
      String.ofList ds ++ String.ofList (List.replicate k.toNat '0') ++ ".0"
    else if 0 ≤ exponent then
      let whole := (exponent + 1).toNat
      String.ofList (ds.take whole) ++ "." ++ String.ofList (ds.drop whole)
    else
      "0." ++ String.ofList (List.replicate (-exponent - 1).toNat '0') ++ String.ofList ds
  else
    let fraction := match ds.drop 1 with
      | [] => ""
      | r => "." ++ String.ofList r
    let sign := if layout.plusSign ∧ 0 < exponent then "+" else ""
    String.ofList (ds.take 1) ++ fraction ++ "e" ++ sign ++ toString exponent

end FloatLayout

/-- The text of a double. -/
def Binary64.text (layout : FloatLayout) : Binary64 → String
  | .nan => ".nan"
  | .infinite false => ".inf"
  | .infinite true => "-.inf"
  | .finite s m e =>
    let (d, k) := Shortest.digits m e
    (if s then "-" else "") ++ layout.render d k

/-- A number of plain data. -/
inductive Number where
  /-- An integer; the readers keep it between `-2 ^ 63` and `2 ^ 64 - 1`. -/
  | int (value : Int)
  /-- A double. -/
  | float (value : Binary64)
  deriving DecidableEq, Inhabited

namespace Number

/-- The least integer that plain data holds. -/
def minInt : Int := -(Width.half64 : Int)

/-- The greatest integer that plain data holds. -/
def maxInt : Int := (Width.bound64 : Int) - 1

/-- Whether an integer fits in plain data. -/
def InRange (n : Int) : Prop := minInt ≤ n ∧ n ≤ maxInt

instance (n : Int) : Decidable (InRange n) := inferInstanceAs (Decidable (_ ∧ _))

/-- The text of a number. -/
def text (layout : FloatLayout) : Number → String
  | .int n => toString n
  | .float x => x.text layout

/-- Equality of numbers used as keys. An integer and a double differ. -/
def sameNumber : Number → Number → Bool
  | .int m, .int n => m == n
  | .float x, .float y => x.sameNumber y
  | _, _ => false

end Number
end Graft
