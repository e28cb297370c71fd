import Mathlib.Algebra.Order.Field.Rat
import Mathlib.Algebra.Order.Field.Power
import Mathlib.Tactic.FieldSimp
import Mathlib.Tactic.Linarith
import Mathlib.Tactic.Positivity
import Graft.Number.Binary64

/-!
# Graft.Proofs.Number.Rounding

What rounding to a double does, in terms of rational numbers.

`ofRatio` finds the power of two in which the mantissa has its full length, or the
least one there is (`IsExponent`), and takes the nearest natural number of these
(`Nearest`). There is only one such power and one such number, so a quotient within
half a unit of a double is rounded to it (`ofRatio_eq`). Below a power of two the
units are half as large, which is the one case in which the rounding carries into
the next power.
-/

namespace Graft
namespace Binary64

/-- A double in the form that the readers build, with a mantissa of full length or
the least exponent. -/
def Valid : Binary64 → Prop
  | .finite _ m e =>
    m < mantissaBound ∧ minExponent ≤ e ∧ e ≤ maxExponent ∧ (Nat.pow 2 52 ≤ m ∨ e = minExponent)
  | _ => True

/-! ### The nearest natural number -/

/-- The number `y` lies within a half of `m`, and within less if `m` is odd. -/
structure Nearest (m : Nat) (y : ℚ) : Prop where
  lower : (m : ℚ) - 1 / 2 ≤ y
  upper : y ≤ m + 1 / 2
  odd : m % 2 = 1 → (m : ℚ) - 1 / 2 < y ∧ y < m + 1 / 2

theorem roundHalfEven_eq {n d m : Nat} (hd : 0 < d) (h : Nearest m (n / d)) :
    roundHalfEven n d = m := by
  have hd' : (0 : ℚ) < d := by exact_mod_cast hd
  have hlower : 2 * (m * d) ≤ 2 * n + d := by
    have := (le_div_iff₀ hd').mp h.lower
    exact_mod_cast (by linarith : (2 * (m * d) : ℚ) ≤ 2 * n + d)
  have hupper : 2 * n ≤ 2 * (m * d) + d := by
    have := (div_le_iff₀ hd').mp h.upper
    exact_mod_cast (by linarith : (2 * n : ℚ) ≤ 2 * (m * d) + d)
  have hodd : m % 2 = 1 → 2 * (m * d) < 2 * n + d ∧ 2 * n < 2 * (m * d) + d := by
    intro hm
    obtain ⟨h1, h2⟩ := h.odd hm
    have h1 := (lt_div_iff₀ hd').mp h1
    have h2 := (div_lt_iff₀ hd').mp h2
    constructor
    · exact_mod_cast (by linarith : (2 * (m * d) : ℚ) < 2 * n + d)
    · exact_mod_cast (by linarith : (2 * n : ℚ) < 2 * (m * d) + d)
  have hsplit : n / d * d + n % d = n := Nat.div_add_mod' n d
  have hrest : n % d < d := Nat.mod_lt n hd
  -- the quotient is the number itself or the one before it
  have hle : n / d ≤ m := by
    by_contra hlt
    have := Nat.mul_le_mul_right d (by omega : m + 1 ≤ n / d)
    rw [Nat.add_mul] at this
    omega
  have hge : m ≤ n / d + 1 := by
    by_contra hlt
    have := Nat.mul_le_mul_right d (by omega : n / d + 2 ≤ m)
    rw [Nat.add_mul] at this
    omega
  unfold roundHalfEven
  simp only
  obtain hm | hm : m = n / d ∨ m = n / d + 1 := by omega
  · have hmul : m * d = n / d * d := by rw [hm]
    split_ifs <;> omega
  · have hmul : m * d = n / d * d + d := by rw [hm, Nat.add_mul, Nat.one_mul]
    split_ifs <;> omega

/-- The nearest natural number is the quotient or the next. -/
theorem roundHalfEven_bounds (n d : Nat) :
    n / d ≤ roundHalfEven n d ∧ roundHalfEven n d ≤ n / d + 1 := by
  unfold roundHalfEven
  simp only
  split_ifs <;> omega

/-! ### The exponent -/

theorem two_zpow_pos (e : Int) : (0 : ℚ) < 2 ^ e := zpow_pos (by norm_num) e

theorem two_zpow_le {a b : Int} (h : a ≤ b) : (2 : ℚ) ^ a ≤ 2 ^ b :=
  zpow_le_zpow_right₀ (by norm_num) h

/-- The power of two in which the mantissa of a number has its full length, or the
least one. -/
structure IsExponent (x : ℚ) (e : Int) : Prop where
  min : minExponent ≤ e
  below : x < 2 ^ (e + 53)
  above : e ≠ minExponent → (2 : ℚ) ^ (e + 52) ≤ x

theorem IsExponent.le {x : ℚ} {e f : Int} (he : IsExponent x e) (hf : IsExponent x f) : e ≤ f := by
  by_contra hlt
  have habove := he.above (by have := hf.min; omega)
  have hstep : (2 : ℚ) ^ (f + 53) ≤ 2 ^ (e + 52) := two_zpow_le (by omega)
  have hbelow := hf.below
  linarith

theorem IsExponent.unique {x : ℚ} {e f : Int} (he : IsExponent x e) (hf : IsExponent x f) : e = f :=
  Int.le_antisymm (he.le hf) (hf.le he)

theorem scaled_pos {den : Nat} (hden : 0 < den) (num : Nat) (e : Int) :
    0 < (scaled num den e).2 := by
  unfold scaled
  split
  · exact Nat.mul_pos hden (Nat.pow_pos (by norm_num))
  · exact hden

theorem scaled_value (num den : Nat) (e : Int) :
    ((scaled num den e).1 : ℚ) / (scaled num den e).2 = num / den / 2 ^ e := by
  unfold scaled
  split
  · next he =>
      obtain ⟨k, rfl⟩ := Int.eq_ofNat_of_zero_le he
      simp only [Nat.pow_eq, Int.toNat_natCast]
      push_cast
      rw [zpow_natCast, div_div]
  · next he =>
      obtain ⟨k, rfl⟩ : ∃ k : Nat, e = -k := ⟨(-e).toNat, by omega⟩
      simp only [Nat.pow_eq, neg_neg, Int.toNat_natCast]
      push_cast
      rw [zpow_neg, zpow_natCast, div_inv_eq_mul, mul_div_right_comm]

/-- The binary lengths of numerator and denominator bound a quotient. -/
theorem log2_bounds {num den : Nat} (hnum : 0 < num) (hden : 0 < den) :
    (2 : ℚ) ^ ((num.log2 : Int) - den.log2 - 1) < num / den ∧
      (num / den : ℚ) < 2 ^ ((num.log2 : Int) - den.log2 + 1) := by
  have hden' : (0 : ℚ) < den := by exact_mod_cast hden
  have hnumlow : ((2 : ℚ) ^ (num.log2 : Int)) ≤ num := by
    rw [zpow_natCast]
    exact_mod_cast Nat.log2_self_le (by omega)
  have hnumhigh : (num : ℚ) < 2 ^ ((num.log2 : Int) + 1) := by
    exact_mod_cast @Nat.lt_log2_self num
  have hdenlow : ((2 : ℚ) ^ (den.log2 : Int)) ≤ den := by
    rw [zpow_natCast]
    exact_mod_cast Nat.log2_self_le (by omega)
  have hdenhigh : (den : ℚ) < 2 ^ ((den.log2 : Int) + 1) := by
    exact_mod_cast @Nat.lt_log2_self den
  constructor
  · rw [lt_div_iff₀ hden']
    calc (2 : ℚ) ^ ((num.log2 : Int) - den.log2 - 1) * den
        < 2 ^ ((num.log2 : Int) - den.log2 - 1) * 2 ^ ((den.log2 : Int) + 1) := by
          exact mul_lt_mul_of_pos_left hdenhigh (two_zpow_pos _)
      _ = 2 ^ (num.log2 : Int) := by
          rw [← zpow_add₀ (by norm_num)]
          congr 1
          omega
      _ ≤ num := hnumlow
  · rw [div_lt_iff₀ hden']
    calc (num : ℚ) < 2 ^ ((num.log2 : Int) + 1) := hnumhigh
      _ = 2 ^ ((num.log2 : Int) - den.log2 + 1) * 2 ^ (den.log2 : Int) := by
          rw [← zpow_add₀ (by norm_num)]
          congr 1
          omega
      _ ≤ 2 ^ ((num.log2 : Int) - den.log2 + 1) * den := by
          exact mul_le_mul_of_nonneg_left hdenlow (two_zpow_pos _).le

theorem div_lt_mantissaBound_iff (num : Nat) {den : Nat} (hden : 0 < den) (e : Int) :
    (scaled num den e).1 / (scaled num den e).2 < mantissaBound ↔
      (num / den : ℚ) < 2 ^ (e + 53) := by
  have hd := scaled_pos hden num e
  have hd' : (0 : ℚ) < (scaled num den e).2 := by exact_mod_cast hd
  rw [Nat.div_lt_iff_lt_mul hd, add_comm e, zpow_add₀ (by norm_num), ← div_lt_iff₀ (two_zpow_pos e),
    ← scaled_value, div_lt_iff₀ hd']
  rw [show ((2 : ℚ) ^ (53 : Int)) = (mantissaBound : ℚ) by norm_num [mantissaBound]]
  exact_mod_cast Iff.rfl

theorem isExponent_exponentOf {num den : Nat} (hnum : 0 < num) (hden : 0 < den) :
    IsExponent (num / den) (exponentOf num den) := by
  obtain ⟨hlow, hhigh⟩ := log2_bounds hnum hden
  unfold exponentOf
  simp only
  generalize hguess : max ((num.log2 : Int) - den.log2 - 53) minExponent = guess
  have hcheck := div_lt_mantissaBound_iff num hden guess
  split_ifs with h
  · refine ⟨by omega, hcheck.mp h, fun hne => ?_⟩
    exact le_of_lt (lt_of_le_of_lt (two_zpow_le (by omega)) hlow)
  · have habove : (2 : ℚ) ^ (guess + 53) ≤ num / den := not_lt.mp fun hlt => h (hcheck.mpr hlt)
    -- the guess was not the least exponent then
    have hguess' : guess = (num.log2 : Int) - den.log2 - 53 := by
      by_contra hne
      have : (2 : ℚ) ^ ((num.log2 : Int) - den.log2 + 1) ≤ 2 ^ (guess + 53) :=
        two_zpow_le (by omega)
      linarith
    refine ⟨by omega, ?_, fun _ => ?_⟩
    · exact lt_of_lt_of_le hhigh (two_zpow_le (by omega))
    · rw [show guess + 1 + 52 = guess + 53 by omega]
      exact habove

/-! ### Rounding -/

/-- The numbers that round to `m · 2 ^ e`. Just below a power of two the doubles are
closer to each other. -/
structure Rounds (m : Nat) (e : Int) (x : ℚ) : Prop where
  nearest : Nearest m (x / 2 ^ e)
  power : m = 2 ^ 52 → e ≠ minExponent → (m : ℚ) - 1 / 4 ≤ x / 2 ^ e

theorem Rounds.pos {m : Nat} {e : Int} {x : ℚ} (hm : 0 < m) (h : Rounds m e x) : 0 < x := by
  have hm' : (1 : ℚ) ≤ m := by exact_mod_cast hm
  have hlower := h.nearest.lower
  have hquotient : 0 < x / 2 ^ e := by linarith
  exact (div_pos_iff_of_pos_right (two_zpow_pos e)).mp hquotient

/-- The mantissa has its full length at the exponent of a double, or is carried into it. -/
theorem Rounds.isExponent {s : Bool} {m : Nat} {e : Int} (hvalid : Valid (.finite s m e)) {x : ℚ}
    (h : Rounds m e x) :
    IsExponent x e ∨ m = 2 ^ 52 ∧ IsExponent x (e - 1) ∧ Nearest (2 ^ 53) (x / 2 ^ (e - 1)) := by
  obtain ⟨hbound, hmin, -, hfull⟩ := hvalid
  have he := two_zpow_pos e
  have hbound' : (m : ℚ) + 1 / 2 < 2 ^ (53 : Int) := by
    have : ((m + 1 : Nat) : ℚ) ≤ ((2 ^ 53 : Nat) : ℚ) := by exact_mod_cast hbound
    push_cast at this
    norm_num
    linarith
  have hbelow : x < 2 ^ (e + 53) := by
    rw [add_comm e, zpow_add₀ (by norm_num), ← div_lt_iff₀ he]
    exact lt_of_le_of_lt h.nearest.upper hbound'
  by_cases habove : e ≠ minExponent → (2 : ℚ) ^ (e + 52) ≤ x
  · exact .inl ⟨hmin, hbelow, habove⟩
  · obtain ⟨hne, hlt⟩ := Classical.not_imp.mp habove
    have hlt : x / 2 ^ e < 2 ^ 52 := by
      rw [not_le, add_comm e, zpow_add₀ (by norm_num), ← div_lt_iff₀ he] at hlt
      exact_mod_cast hlt
    -- a larger mantissa would be a half away at least
    have hm : m = 2 ^ 52 := by
      have hlarge : 2 ^ 52 ≤ m := hfull.resolve_right hne
      by_contra hmne
      have : ((2 ^ 52 + 1 : Nat) : ℚ) ≤ m := by exact_mod_cast (by omega : 2 ^ 52 + 1 ≤ m)
      have := h.nearest.lower
      push_cast at *
      linarith
    have hlower := h.power hm hne
    have hhalf : x / 2 ^ (e - 1) = 2 * (x / 2 ^ e) := by
      rw [zpow_sub_one₀ (by norm_num)]
      field_simp
    have hx : x = x / 2 ^ e * 2 ^ e := by field_simp
    rw [hm] at hlower
    push_cast at hlower
    refine .inr ⟨hm, ⟨by omega, ?_, fun _ => ?_⟩, ?_⟩
    · rw [show e - 1 + 53 = 52 + e by omega, zpow_add₀ (by norm_num), ← div_lt_iff₀ he]
      exact_mod_cast hlt
    · rw [show e - 1 + 52 = 51 + e by omega, zpow_add₀ (by norm_num), ← le_div_iff₀ he]
      norm_num at hlower ⊢
      linarith
    · rw [hhalf]
      norm_num at hlower hlt
      exact ⟨by norm_num; linarith, by norm_num; linarith, fun hodd => by norm_num at hodd⟩

/-- A quotient rounds to the double that it is near to. -/
theorem ofRatio_eq {s : Bool} {num den m : Nat} {e : Int} (hden : 0 < den) (hm : 0 < m)
    (hvalid : Valid (.finite s m e)) (h : Rounds m e (num / den)) :
    ofRatio s num den = .finite s m e := by
  have hnum : 0 < num := by
    have hpos := h.pos hm
    by_contra hzero
    obtain rfl : num = 0 := by omega
    simp at hpos
  have hexponent := isExponent_exponentOf hnum hden
  have hmax : ¬ maxExponent < e := by have := hvalid.2.2.1; omega
  unfold ofRatio
  rw [if_neg (by omega)]
  simp only
  rcases h.isExponent hvalid with he | ⟨hpower, he, hnearest⟩
  · have hround := roundHalfEven_eq (scaled_pos hden num e)
      (by rw [scaled_value]; exact h.nearest)
    have hne : m ≠ mantissaBound := Nat.ne_of_lt hvalid.1
    rw [hexponent.unique he, hround, if_neg hne, if_neg hmax]
  · have hround := roundHalfEven_eq (scaled_pos hden num (e - 1))
      (by rw [scaled_value]; exact hnearest)
    have hcarry : 2 ^ 53 = mantissaBound := rfl
    rw [hexponent.unique he, hround, if_pos hcarry]
    simp only [Int.sub_add_cancel, if_neg hmax, hpower]
    rfl

/-- What rounding gives is in the one form. -/
theorem valid_ofRatio (s : Bool) (num : Nat) {den : Nat} (hden : 0 < den) :
    Valid (ofRatio s num den) := by
  unfold ofRatio
  by_cases hnum : num = 0
  · rw [if_pos hnum]
    exact ⟨by decide, by decide, by decide, .inr rfl⟩
  rw [if_neg hnum]
  have he := isExponent_exponentOf (by omega : 0 < num) hden
  generalize exponentOf num den = e at he
  obtain ⟨hlow, hhigh⟩ := roundHalfEven_bounds (scaled num den e).1 (scaled num den e).2
  have hbelow := (div_lt_mantissaBound_iff num hden e).mpr he.below
  have habove : e ≠ minExponent →
      2 ^ 52 ≤ (scaled num den e).1 / (scaled num den e).2 := by
    intro hne
    have hd := scaled_pos hden num e
    have hd' : (0 : ℚ) < (scaled num den e).2 := by exact_mod_cast hd
    have h := he.above hne
    rw [add_comm e, zpow_add₀ (by norm_num), ← le_div_iff₀ (two_zpow_pos e), ← scaled_value,
      le_div_iff₀ hd'] at h
    rw [Nat.le_div_iff_mul_le hd]
    exact_mod_cast h
  simp only
  by_cases hcarry : roundHalfEven (scaled num den e).1 (scaled num den e).2 = mantissaBound
  · simp only [if_pos hcarry]
    rw [hcarry]
    split_ifs with hmax
    · trivial
    · have := he.min
      exact ⟨by decide, by omega, by omega, .inl (by decide)⟩
  · simp only [if_neg hcarry]
    split_ifs with hmax
    · trivial
    · refine ⟨by omega, he.min, by omega, ?_⟩
      by_cases hmin : e = minExponent
      · exact .inr hmin
      · exact .inl (Nat.le_trans (habove hmin) hlow)

end Binary64
end Graft
