import Graft.Proofs.Number.Decimal
import Graft.Proofs.Number.Rounding

/-!
# Graft.Proofs.Number.RoundTrip

A double that is written is read back (`Binary64.numeral_of_text`), and never as an integer
(`Binary64.parseInt?_text`).

The digits of a double come from a search through grids of powers of ten. Whatever
it finds lies in the interval of the numbers that round to the double, because it
checks that (`Shortest.gridPoint?_contains`), and where it finds nothing the exact
value does. So no count of digits has to be shown to be enough. The numeral that is
read has the same value, and rounding takes it back to the double.
-/

namespace Graft

/-! ### Reading a numeral -/

namespace Binary64

variable {s : Bool} {m : Nat} {e : Int} {x : ℚ}

/-- Numbers that round to a finite double are in the range of doubles. -/
theorem Rounds.range (hm : 0 < m) (hvalid : Valid (.finite s m e)) (h : Rounds m e x) :
    (2 : ℚ) ^ (-1075 : Int) ≤ x ∧ x < 2 ^ (1024 : Int) := by
  obtain ⟨hbound, hmin, hmax, -⟩ := hvalid
  have he := two_zpow_pos e
  have hm' : (1 : ℚ) ≤ m := by exact_mod_cast hm
  have hbound' : (m : ℚ) + 1 ≤ 2 ^ (53 : Int) := by exact_mod_cast hbound
  constructor
  · calc (2 : ℚ) ^ (-1075 : Int) = 2 ^ (-1 : Int) * 2 ^ (-1074 : Int) := by
          rw [← zpow_add₀ (by norm_num)]
          norm_num
      _ ≤ x / 2 ^ e * 2 ^ e := by
          have hlower := h.nearest.lower
          refine mul_le_mul ?_ (two_zpow_le hmin) (two_zpow_pos _).le (by linarith)
          norm_num
          linarith
      _ = x := by field_simp
  · calc x = x / 2 ^ e * 2 ^ e := by field_simp
      _ < 2 ^ (53 : Int) * 2 ^ e := by
          have hupper := h.nearest.upper
          exact mul_lt_mul_of_pos_right (by linarith) he
      _ ≤ 2 ^ (53 : Int) * 2 ^ (971 : Int) :=
          mul_le_mul_of_nonneg_left (two_zpow_le hmax) (two_zpow_pos _).le
      _ = 2 ^ (1024 : Int) := by
          rw [← zpow_add₀ (by norm_num)]
          norm_num

end Binary64

namespace Decimal

open Binary64 (Rounds Valid)

theorem ten_pow_le_two_pow (b : Nat) : 10 ^ (b * 3 / 10) ≤ 2 ^ b := by
  rw [← Nat.pow_le_pow_iff_left (n := 10) (by omega), ← Nat.pow_mul, ← Nat.pow_mul]
  calc 10 ^ (b * 3 / 10 * 10) ≤ 10 ^ (3 * b) := Nat.pow_le_pow_right (by omega) (by omega)
    _ = (10 ^ 3) ^ b := Nat.pow_mul 10 3 b
    _ ≤ (2 ^ 10) ^ b := Nat.pow_le_pow_left (by norm_num) b
    _ = 2 ^ (b * 10) := by rw [← Nat.pow_mul, Nat.mul_comm]

theorem two_pow_le_ten_pow (b : Nat) : 2 ^ (b + 1) ≤ 10 ^ (b / 3 + 1) := by
  calc 2 ^ (b + 1) ≤ 2 ^ (3 * (b / 3 + 1)) := Nat.pow_le_pow_right (by omega) (by omega)
    _ = (2 ^ 3) ^ (b / 3 + 1) := Nat.pow_mul 2 3 _
    _ ≤ 10 ^ (b / 3 + 1) := Nat.pow_le_pow_left (by norm_num) _

theorem ten_zpow_pos (k : Int) : (0 : ℚ) < 10 ^ k := zpow_pos (by norm_num) k

theorem two_zpow_le_ten_zpow {b : Int} (hb : b ≤ 1200) : (2 : ℚ) ^ b ≤ 10 ^ (400 : Int) := by
  refine (Binary64.two_zpow_le hb).trans ?_
  rw [show (1200 : Int) = 3 * 400 by rfl, zpow_mul]
  exact zpow_le_zpow_left₀ (by norm_num) (by norm_num) (by norm_num)

/-- The binary length of the digits bounds the value by powers of ten. -/
theorem value_bounds {d : Decimal} (hd : d.digits ≠ 0) :
    (10 : ℚ) ^ (d.exponent + (d.digits.log2 * 3 / 10 : Nat)) ≤ d.value ∧
      d.value < 10 ^ (d.exponent + (d.digits.log2 / 3 + 1 : Nat)) := by
  have hlow : ((10 : ℚ) ^ ((d.digits.log2 * 3 / 10 : Nat) : Int)) ≤ d.digits := by
    rw [zpow_natCast]
    exact_mod_cast Nat.le_trans (ten_pow_le_two_pow _) (Nat.log2_self_le hd)
  have hhigh : (d.digits : ℚ) < 10 ^ ((d.digits.log2 / 3 + 1 : Nat) : Int) := by
    rw [zpow_natCast]
    exact_mod_cast Nat.lt_of_lt_of_le Nat.lt_log2_self (two_pow_le_ten_pow _)
  have hpos := ten_zpow_pos d.exponent
  unfold value
  rw [add_comm d.exponent, zpow_add₀ (by norm_num), add_comm d.exponent, zpow_add₀ (by norm_num)]
  exact ⟨mul_le_mul_of_nonneg_right hlow hpos.le, mul_lt_mul_of_pos_right hhigh hpos⟩

/-- What is settled by the lengths alone is out of the range of doubles. -/
theorem exponent_bounds {d : Decimal} (hd : d.digits ≠ 0) (hlow : (2 : ℚ) ^ (-1075 : Int) ≤ d.value)
    (hhigh : d.value < 2 ^ (1024 : Int)) :
    d.exponent + (d.digits.log2 * 3 / 10 : Nat) ≤ 400 ∧
      -400 ≤ d.exponent + (d.digits.log2 / 3 + 1 : Nat) := by
  obtain ⟨hten, hten'⟩ := value_bounds hd
  constructor
  · by_contra hlt
    have h400 : (10 : ℚ) ^ (400 : Int) ≤ 10 ^ (d.exponent + (d.digits.log2 * 3 / 10 : Nat)) :=
      zpow_le_zpow_right₀ (by norm_num) (by omega)
    have hless : (10 : ℚ) ^ (400 : Int) < 2 ^ (1024 : Int) :=
      lt_of_le_of_lt (h400.trans hten) hhigh
    exact absurd hless (not_lt.mpr (two_zpow_le_ten_zpow (by norm_num)))
  · by_contra hlt
    have h400 : (10 : ℚ) ^ (d.exponent + (d.digits.log2 / 3 + 1 : Nat)) ≤ 10 ^ (-400 : Int) :=
      zpow_le_zpow_right₀ (by norm_num) (by omega)
    have hless : (2 : ℚ) ^ (-1075 : Int) < 10 ^ (-400 : Int) :=
      lt_of_le_of_lt hlow (lt_of_lt_of_le hten' h400)
    rw [zpow_neg, zpow_neg, inv_lt_inv₀ (Binary64.two_zpow_pos _) (ten_zpow_pos _)] at hless
    exact absurd hless (not_lt.mpr (two_zpow_le_ten_zpow (by norm_num)))

/-- Reading is rounding, where the result is a finite double other than zero. -/
theorem toBinary64_eq {d : Decimal} {s : Bool} {m : Nat} {e : Int} (hm : 0 < m)
    (hvalid : Valid (.finite s m e)) (h : Rounds m e d.value) :
    d.toBinary64 s = .finite s m e := by
  obtain ⟨hlow, hhigh⟩ := h.range hm hvalid
  have hd : d.digits ≠ 0 := by
    intro hzero
    have hpos := h.pos hm
    simp [value, hzero] at hpos
  obtain ⟨hlarge, hsmall⟩ := exponent_bounds hd hlow hhigh
  unfold toBinary64
  simp only [if_neg hd, if_neg (not_lt.mpr hlarge), if_neg (not_lt.mpr hsmall)]
  unfold value at h
  split
  · next hexponent =>
      obtain ⟨k, hk⟩ := Int.eq_ofNat_of_zero_le hexponent
      rw [hk, zpow_natCast] at h
      refine Binary64.ofRatio_eq (by omega) hm hvalid ?_
      rw [hk]
      simpa using h
  · next hexponent =>
      obtain ⟨k, hk⟩ : ∃ k : Nat, d.exponent = -k := ⟨(-d.exponent).toNat, by omega⟩
      rw [hk, zpow_neg, zpow_natCast, ← div_eq_mul_inv] at h
      refine Binary64.ofRatio_eq (Nat.pow_pos (by omega)) hm hvalid ?_
      rw [hk]
      simpa using h

theorem valid_toBinary64 (d : Decimal) (s : Bool) : (d.toBinary64 s).Valid := by
  have hzero : (Binary64.zero s).Valid := ⟨by decide, by decide, by decide, .inr rfl⟩
  unfold toBinary64
  simp only
  split_ifs
  · exact hzero
  · trivial
  · exact hzero
  · exact Binary64.valid_ofRatio s _ (by omega)
  · exact Binary64.valid_ofRatio s _ (Nat.pow_pos (by omega))

/-- A numeral does not begin with a sign. -/
theorem takeSign_of_parse? {cs : List Char} {d : Decimal} (h : parse? cs = some d) :
    takeSign cs = (false, cs) := by
  unfold takeSign
  split
  · simp [parse?] at h
  · simp [parse?] at h
  · rfl

end Decimal

/-! ### The search for digits -/

namespace Shortest

open Binary64 (Rounds Nearest two_zpow_pos)

/-- Whether a number of units lies in the interval. -/
def Interval.Holds (i : Interval) (y : ℚ) : Prop :=
  (i.lower < y ∧ y < i.upper) ∨ (i.closed = true ∧ (y = i.lower ∨ y = i.upper))

theorem Interval.holds_of_contains {i : Interval} {x : Nat} (h : i.contains x = true) :
    i.Holds x := by
  simp only [contains, Bool.or_eq_true, Bool.and_eq_true, decide_eq_true_eq, beq_iff_eq] at h
  unfold Holds
  exact_mod_cast h

theorem Interval.holds_of_scale {i : Interval} {k : Nat} (hk : 0 < k) {y : ℚ}
    (h : (i.scale k).Holds y) : i.Holds (y / k) := by
  have hk' : (0 : ℚ) < k := by exact_mod_cast hk
  unfold Holds scale at h
  push_cast at h
  unfold Holds
  rw [lt_div_iff₀ hk', div_lt_iff₀ hk', div_eq_iff hk'.ne', div_eq_iff hk'.ne']
  exact h

/-- The ends of the interval of a double, in quarters of its unit: half a unit away, and
half of this below a power of two. -/
theorem Interval.of_bounds (m : Nat) (e : Int) :
    (4 * m - 2 : ℚ) ≤ (Interval.of m e).lower ∧ ((Interval.of m e).lower : ℚ) ≤ 4 * m ∧
      ((Interval.of m e).upper : ℚ) = 4 * m + 2 := by
  have hlower : 4 * m ≤ (Interval.of m e).lower + 2 ∧ (Interval.of m e).lower ≤ 4 * m := by
    unfold Interval.of
    simp only
    split_ifs <;> omega
  have hlow : ((4 * m : Nat) : ℚ) ≤ ((Interval.of m e).lower + 2 : Nat) := by
    exact_mod_cast hlower.1
  push_cast at hlow
  exact ⟨by linarith, by exact_mod_cast hlower.2, by simp [Interval.of]⟩

theorem Interval.of_lower_of_power {m : Nat} {e : Int} (hm : m = 2 ^ 52)
    (he : e ≠ Binary64.minExponent) : (4 * m - 1 : ℚ) ≤ (Interval.of m e).lower := by
  have hlower : 4 * m ≤ (Interval.of m e).lower + 1 := by
    unfold Interval.of
    simp only [Nat.pow_eq, hm, he, true_and, ne_eq, not_false_eq_true, if_true]
    omega
  have hlow : ((4 * m : Nat) : ℚ) ≤ ((Interval.of m e).lower + 1 : Nat) := by
    exact_mod_cast hlower
  push_cast at hlow
  linarith

/-- The interval of a double holds numbers that round to it, in quarters of its unit. -/
theorem rounds_of_holds {m : Nat} {e : Int} {x : ℚ}
    (h : (Interval.of m e).Holds (x / 2 ^ (e - 2))) : Rounds m e x := by
  have hquarter : x / 2 ^ (e - 2) = 4 * (x / 2 ^ e) := by
    rw [zpow_sub₀ (by norm_num)]
    field_simp
    norm_num
  obtain ⟨hlower, hmiddle, hupper⟩ := Interval.of_bounds m e
  have hclosed : (Interval.of m e).closed = true → m % 2 = 0 := by simp [Interval.of]
  rw [hquarter, Interval.Holds, hupper] at h
  have hends : ((Interval.of m e).lower : ℚ) ≤ 4 * (x / 2 ^ e) ∧ 4 * (x / 2 ^ e) ≤ 4 * m + 2 := by
    rcases h with ⟨hlow, hhigh⟩ | ⟨-, hend | hend⟩
    · exact ⟨hlow.le, hhigh.le⟩
    · exact ⟨hend.ge, by linarith⟩
    · exact ⟨by linarith, hend.le⟩
  refine ⟨⟨by linarith, by linarith, fun hodd => ?_⟩, fun hm he => ?_⟩
  · -- the ends belong to even mantissas only
    rcases h with ⟨hlow, hhigh⟩ | ⟨heven, -⟩
    · exact ⟨by linarith, by linarith⟩
    · have := hclosed heven
      omega
  · have := Interval.of_lower_of_power hm he
    linarith

theorem gridPoint?_contains {i : Interval} {step d : Nat} (h : gridPoint? i step = some d) :
    i.contains (d * step) = true := by
  unfold gridPoint? at h
  simp only at h
  split at h
  · next hbelow habove =>
      obtain rfl := Option.some.inj h
      split_ifs
      · exact hbelow
      · exact habove
  · next hbelow _ => exact Option.some.inj h ▸ hbelow
  · next _ habove => exact Option.some.inj h ▸ habove
  · cases h

/-- What the search finds is in the interval. -/
theorem search_holds {i : Interval} {den : Nat} {fuel : Nat} {start : Int} {d : Nat} {k : Int}
    (h : search i den fuel start = some (d, k)) : i.Holds (d * 10 ^ k * den) := by
  induction fuel generalizing start with
  | zero => cases h
  | succ fuel ih =>
      unfold search at h
      simp only at h
      split at h
      · next found hit =>
          obtain ⟨rfl, rfl⟩ := Prod.mk.inj (Option.some.inj h)
          split at hit
          · next hk =>
              obtain ⟨j, rfl⟩ := Int.eq_ofNat_of_zero_le hk
              have := Interval.holds_of_contains (gridPoint?_contains hit)
              rw [Int.toNat_natCast, Nat.pow_eq] at this
              push_cast at this
              rw [zpow_natCast]
              rwa [show (found : ℚ) * 10 ^ j * den = found * (den * 10 ^ j) by ring]
          · next hk =>
              obtain ⟨j, rfl⟩ : ∃ j : Nat, start = -j := ⟨(-start).toNat, by omega⟩
              have := Interval.holds_of_contains (gridPoint?_contains hit)
              rw [neg_neg, Int.toNat_natCast, Nat.pow_eq] at this
              have := Interval.holds_of_scale (Nat.pow_pos (by omega)) this
              push_cast at this
              rw [zpow_neg, zpow_natCast]
              rwa [show (found : ℚ) * (10 ^ j)⁻¹ * den = found * den / 10 ^ j by ring]
      · exact ih h

/-- Trailing zeros do not change the value. -/
theorem trim_value (fuel d : Nat) (k : Int) :
    ((trim fuel d k).1 : ℚ) * 10 ^ (trim fuel d k).2 = d * 10 ^ k := by
  induction fuel generalizing d k with
  | zero => rfl
  | succ fuel ih =>
      unfold trim
      split
      · next h =>
          obtain ⟨q, rfl⟩ : ∃ q, d = 10 * q := ⟨d / 10, by omega⟩
          rw [ih, Nat.mul_div_cancel_left q (by omega), zpow_add_one₀ (by norm_num)]
          push_cast
          ring
      · rfl

theorem exact_value (m : Nat) (e : Int) : ((exact m e).1 : ℚ) * 10 ^ (exact m e).2 = m * 2 ^ e := by
  unfold exact
  split
  · next he =>
      obtain ⟨j, rfl⟩ := Int.eq_ofNat_of_zero_le he
      simp
  · next he =>
      obtain ⟨j, rfl⟩ : ∃ j : Nat, e = -j := ⟨(-e).toNat, by omega⟩
      simp only [neg_neg, Int.toNat_natCast, Nat.pow_eq]
      push_cast
      rw [zpow_neg, zpow_natCast, zpow_neg, zpow_natCast, show (10 : ℚ) = 5 * 2 by norm_num,
        mul_pow]
      field_simp

/-- **The digits of a double read back.** They stand for a number that rounds to it. -/
theorem rounds_digits {m : Nat} (hm : 0 < m) (e : Int) :
    Rounds m e ((digits m e).1 * 10 ^ (digits m e).2) := by
  unfold digits
  rw [if_neg (by omega)]
  simp only
  split
  · next d k hfound =>
      rw [trim_value]
      have h := search_holds hfound
      refine rounds_of_holds ?_
      split at h
      · next hquarter =>
          obtain ⟨j, hj⟩ := Int.eq_ofNat_of_zero_le hquarter
          rw [hj, Int.toNat_natCast, Nat.pow_eq] at h
          have := Interval.holds_of_scale (Nat.pow_pos (by omega)) h
          rw [hj, zpow_natCast]
          simpa using this
      · next hquarter =>
          obtain ⟨j, hj⟩ : ∃ j : Nat, e - 2 = -j := ⟨(-(e - 2)).toNat, by omega⟩
          rw [hj, neg_neg, Int.toNat_natCast, Nat.pow_eq] at h
          rw [hj, zpow_neg, zpow_natCast, div_inv_eq_mul]
          simpa using h
  · rw [exact_value]
    have hself : (m : ℚ) * 2 ^ e / 2 ^ e = m := mul_div_cancel_right₀ _ (two_zpow_pos e).ne'
    exact ⟨by rw [hself]; exact ⟨by linarith, by linarith, fun _ => ⟨by linarith, by linarith⟩⟩,
      fun _ _ => by rw [hself]; linarith⟩

end Shortest

/-! ### Texts of doubles -/

namespace Binary64

/-- The text of a finite double is a sign and its digits as they are laid out. -/
theorem takeSign_text (layout : FloatLayout) (s : Bool) (m : Nat) (e : Int) :
    Decimal.takeSign (text layout (.finite s m e)).toList =
      (s, (layout.render (Shortest.digits m e).1 (Shortest.digits m e).2).toList) := by
  obtain ⟨n, hn, -⟩ :=
    Decimal.parse?_render layout (Shortest.digits m e).1 (Shortest.digits m e).2
  have htext : (text layout (.finite s m e)).toList =
      (if s then "-" else "").toList ++
        (layout.render (Shortest.digits m e).1 (Shortest.digits m e).2).toList := by
    simp only [text, String.toList_append]
  rw [htext]
  cases s with
  | true => rfl
  | false => exact Decimal.takeSign_of_parse? hn

/-- The text of a finite double is a sign and a numeral, which reads as the double. -/
theorem numeral_of_text (layout : FloatLayout) {s : Bool} {m : Nat} {e : Int}
    (hvalid : Valid (.finite s m e)) :
    ∃ cs n, Decimal.takeSign (text layout (.finite s m e)).toList = (s, cs) ∧
      Decimal.parse? cs = some n ∧ n.toBinary64 s = .finite s m e := by
  obtain ⟨n, hn, hvalue⟩ :=
    Decimal.parse?_render layout (Shortest.digits m e).1 (Shortest.digits m e).2
  refine ⟨_, n, takeSign_text layout s m e, hn, ?_⟩
  by_cases hm : m = 0
  · subst hm
    obtain ⟨-, -, -, hfull | rfl⟩ := hvalid
    · simp at hfull
    · -- zero is written as zero
      have hdigits : n.digits = 0 := by
        have hten := Decimal.ten_zpow_pos n.exponent
        simpa [Decimal.value, Shortest.digits, hten.ne'] using hvalue
      simp [Decimal.toBinary64, hdigits, zero]
  · refine Decimal.toBinary64_eq (by omega) hvalid ?_
    rw [hvalue]
    exact Shortest.rounds_digits (by omega) e

/-- The text of a double is not that of an integer. -/
theorem parseInt?_text (layout : FloatLayout) (x : Binary64) :
    Decimal.parseInt? (x.text layout).toList = none := by
  cases x with
  | nan => exact (by decide : Decimal.parseInt? ".nan".toList = none)
  | infinite s =>
      cases s with
      | false => exact (by decide : Decimal.parseInt? ".inf".toList = none)
      | true => exact (by decide : Decimal.parseInt? "-.inf".toList = none)
  | finite s m e =>
      obtain ⟨c, hc, hdigit⟩ :=
        layout.exists_notDigit (Shortest.digits m e).1 (Shortest.digits m e).2
      refine Decimal.parseInt?_eq_none (c := c) ?_ hdigit
      rw [takeSign_text]
      exact hc

/-- What is read is in the one form. -/
theorem valid_of_parse? {cs : List Char} {x : Binary64} (h : parse? cs = some x) : x.Valid := by
  unfold parse? at h
  simp only at h
  split at h
  · next d _ => exact Option.some.inj h ▸ Decimal.valid_toBinary64 d _
  · split at h <;> first | exact Option.some.inj h ▸ trivial | cases h

end Binary64
end Graft
