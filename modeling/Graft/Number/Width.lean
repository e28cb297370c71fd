/-!
# Graft.Number.Width

The bounds of whole numbers of 64 and of 128 bits. A number without a sign is
below `bound64`; one with a sign is at least `-half64` and below `half64`.
-/

namespace Graft
namespace Width

/-- The first number that does not fit in 64 bits, `2 ^ 64`. -/
def bound64 : Nat := 18446744073709551616

/-- The first number that does not fit in 64 bits with a sign, `2 ^ 63`. -/
def half64 : Nat := 9223372036854775808

/-- The first number that does not fit in 128 bits. -/
def bound128 : Nat := Nat.pow 2 128

/-- The first number that does not fit in 128 bits with a sign. -/
def half128 : Nat := Nat.pow 2 127

end Width
end Graft
