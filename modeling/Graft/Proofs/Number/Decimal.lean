import Mathlib.Algebra.Order.Field.Rat
import Mathlib.Tactic.Positivity
import Mathlib.Tactic.Ring
import Graft.Number

/-!
# Graft.Proofs.Number.Decimal

Numerals that are written, read again.

An integer is read back as it was (`Decimal.parseInt?_toString`). The digits of a
double are laid out in four ways (`FloatLayout.render`), and a numeral reads them
with other digits and another exponent than they were written with; what stays is
the number they stand for (`Decimal.parse?_render`).
-/

namespace Graft
namespace Decimal

/-- The number that a numeral stands for. -/
def value (d : Decimal) : ℚ := d.digits * 10 ^ d.exponent

/-! ### Digits -/

theorem readDigits_eq (acc : Nat) (cs : List Char) :
    readDigits acc cs = Nat.ofDigitChars 10 cs acc := by
  unfold readDigits Nat.ofDigitChars
  simp only [digitValue, Nat.mul_comm]

@[simp] theorem readDigits_toDigits (n : Nat) : readDigits 0 (Nat.toDigits 10 n) = n := by
  rw [readDigits_eq, Nat.ofDigitChars_toDigits (by omega) (by omega)]

theorem readDigits_append (acc : Nat) (cs ds : List Char) :
    readDigits acc (cs ++ ds) = readDigits (readDigits acc cs) ds := by
  simp only [readDigits, List.foldl_append]

theorem readDigits_zeros (acc k : Nat) :
    readDigits acc (List.replicate k '0') = acc * 10 ^ k := by
  induction k generalizing acc with
  | zero => simp [readDigits]
  | succ k ih =>
      have hzero : readDigits acc ['0'] = acc * 10 := by simp [readDigits, digitValue]
      rw [List.replicate_succ, ← List.singleton_append, readDigits_append, hzero, ih, pow_succ]
      ring

theorem isDigit_toDigits {n : Nat} : ∀ c ∈ Nat.toDigits 10 n, c.isDigit = true :=
  fun _ => Nat.isDigit_of_mem_toDigits (by omega) (by omega)

theorem isDigits_toDigits (n : Nat) : isDigits (Nat.toDigits 10 n) = true := by
  simp only [isDigits, Bool.and_eq_true, Bool.not_eq_true', List.all_eq_true]
  exact ⟨List.isEmpty_eq_false_iff.mpr Nat.toDigits_ne_nil, isDigit_toDigits⟩

/-- A digit is no sign. -/
theorem takeSign_of_isDigits {cs : List Char} (h : isDigits cs = true) :
    takeSign cs = (false, cs) := by
  unfold takeSign
  split
  · simp [isDigits, Char.isDigit] at h
  · simp [isDigits, Char.isDigit] at h
  · rfl

/-! ### Integers -/

theorem parseInt?_of_digits (n : Nat) : parseInt? (Nat.toDigits 10 n) = some (n : Int) := by
  simp [parseInt?, takeSign_of_isDigits (isDigits_toDigits n), isDigits_toDigits]

theorem parseInt?_toString (n : Int) : parseInt? (toString n).toList = some n := by
  rw [Int.toString_eq_repr, Int.repr_eq_if]
  split
  · next hn =>
      rw [Nat.toList_repr, parseInt?_of_digits, Int.toNat_of_nonneg hn]
  · next hn =>
      have hminus : ("-" ++ (-n).toNat.repr).toList = '-' :: Nat.toDigits 10 (-n).toNat := by
        rw [String.toList_append, Nat.toList_repr]
        rfl
      rw [hminus]
      simp only [parseInt?, takeSign, isDigits_toDigits, if_true, readDigits_toDigits]
      rw [Int.toNat_of_nonneg (by omega), Int.neg_neg]

/-- Behind the sign of an integer there are digits only. -/
theorem parseInt?_eq_none {cs : List Char} {c : Char} (hc : c ∈ (takeSign cs).2)
    (h : c.isDigit = false) : parseInt? cs = none := by
  have hdigits : isDigits (takeSign cs).2 = false := by
    simp only [isDigits, Bool.and_eq_false_iff, List.all_eq_false]
    exact .inr ⟨c, hc, by simp [h]⟩
  simp [parseInt?, hdigits]

/-- A plus in front of an integer without a sign is passed over. -/
theorem parseInt?_plus {n : Int} (hn : 0 ≤ n) :
    parseInt? ('+' :: (toString n).toList) = some n := by
  rw [Int.toString_eq_repr, Int.repr_eq_if, if_pos hn, Nat.toList_repr]
  simp only [parseInt?, takeSign, isDigits_toDigits, if_true, readDigits_toDigits]
  simp [Int.toNat_of_nonneg hn]

/-! ### Numerals -/

section Numerals

variable {whole fraction t : List Char}

theorem takeWhile_isDigit (hwhole : ∀ c ∈ whole, c.isDigit = true)
    (ht : ∀ c ∈ t.head?, c.isDigit = false) :
    (whole ++ t).takeWhile Char.isDigit = whole ∧
      (whole ++ t).dropWhile Char.isDigit = t := by
  rw [List.takeWhile_append_of_pos hwhole, List.dropWhile_append_of_pos hwhole]
  cases t with
  | nil => simp
  | cons c r => simp [ht c rfl]

/-- A numeral with a point. -/
theorem parse?_point (hwhole : ∀ c ∈ whole, c.isDigit = true) (hne : whole ≠ [])
    (hfraction : ∀ c ∈ fraction, c.isDigit = true) (ht : ∀ c ∈ t.head?, c.isDigit = false)
    {e : Int} (he : parseExponent? t = some e) :
    parse? (whole ++ '.' :: (fraction ++ t)) =
      some ⟨readDigits 0 (whole ++ fraction), e - fraction.length⟩ := by
  obtain ⟨hbefore, hafter⟩ := takeWhile_isDigit (t := '.' :: (fraction ++ t)) hwhole
    (by simp [Char.isDigit])
  obtain ⟨hfront, hback⟩ := takeWhile_isDigit hfraction ht
  simp [parse?, hbefore, hafter, hfront, hback, hne, he, readDigits_append]

/-- A numeral without a point. -/
theorem parse?_pointless (hwhole : ∀ c ∈ whole, c.isDigit = true) (hne : whole ≠ [])
    (ht : ∀ c ∈ t.head?, c.isDigit = false ∧ c ≠ '.') {e : Int}
    (he : parseExponent? t = some e) :
    parse? (whole ++ t) = some ⟨readDigits 0 whole, e⟩ := by
  obtain ⟨hbefore, hafter⟩ := takeWhile_isDigit hwhole fun c hc => (ht c hc).1
  unfold parse?
  simp only [hbefore, hafter]
  split
  · exact absurd rfl (ht '.' rfl).2
  · simp [hne, he, readDigits]

end Numerals

/-! ### Layouts -/

/-- What the digits `ds` in front of the power `k` of ten stand for. -/
def Reads (cs ds : List Char) (k : Int) : Prop :=
  ∃ n, parse? cs = some n ∧ n.value = readDigits 0 ds * 10 ^ k

section Layouts

variable {ds : List Char}

theorem isDigit_zeros (k : Nat) : ∀ c ∈ List.replicate k '0', c.isDigit = true := by
  intro c hc
  rw [List.eq_of_mem_replicate hc]
  rfl

theorem isDigit_append {cs : List Char} (hcs : ∀ c ∈ cs, c.isDigit = true)
    (hds : ∀ c ∈ ds, c.isDigit = true) : ∀ c ∈ cs ++ ds, c.isDigit = true := by
  intro c hc
  rcases List.mem_append.mp hc with hc | hc
  · exact hcs c hc
  · exact hds c hc

theorem reads_point {whole fraction : List Char} (hwhole : ∀ c ∈ whole, c.isDigit = true)
    (hne : whole ≠ []) (hfraction : ∀ c ∈ fraction, c.isDigit = true) :
    Reads (whole ++ '.' :: fraction) (whole ++ fraction) (-fraction.length) := by
  have h := parse?_point hwhole hne hfraction (t := []) (by simp) rfl
  rw [List.append_nil] at h
  exact ⟨_, h, by simp only [value, zero_sub]⟩

/-- Zeros between the digits and the point, and one behind it. -/
theorem reads_zeros (hds : ∀ c ∈ ds, c.isDigit = true) (hne : ds ≠ []) (k : Nat) :
    Reads (ds ++ List.replicate k '0' ++ ['.', '0']) ds k := by
  obtain ⟨n, hn, hvalue⟩ := reads_point (isDigit_append hds (isDigit_zeros k)) (by simp [hne])
    (isDigit_zeros 1)
  refine ⟨n, hn, ?_⟩
  rw [hvalue, readDigits_append, readDigits_append, readDigits_zeros, readDigits_zeros]
  push_cast
  rw [zpow_natCast]
  simp

/-- The point among the digits. -/
theorem reads_among (hds : ∀ c ∈ ds, c.isDigit = true) {w : Nat} (hw : 0 < w)
    (hlength : w ≤ ds.length) :
    Reads (ds.take w ++ '.' :: ds.drop w) ds (w - ds.length) := by
  have hne : ds.take w ≠ [] := by
    rw [← List.length_pos_iff, List.length_take]
    omega
  have htake : ∀ c ∈ ds.take w, c.isDigit = true := fun c hc => hds c (List.mem_of_mem_take hc)
  have hdrop : ∀ c ∈ ds.drop w, c.isDigit = true := fun c hc => hds c (List.mem_of_mem_drop hc)
  have h := reads_point htake hne hdrop
  rw [List.take_append_drop, List.length_drop] at h
  rwa [show (w : Int) - ds.length = -((ds.length - w : Nat) : Int) by omega]

/-- Zeros between the point and the digits. -/
theorem reads_behind (hds : ∀ c ∈ ds, c.isDigit = true) (z : Nat) :
    Reads ('0' :: '.' :: (List.replicate z '0' ++ ds)) ds (-z - ds.length) := by
  obtain ⟨n, hn, hvalue⟩ := reads_point (isDigit_zeros 1) (by simp)
    (isDigit_append (isDigit_zeros z) hds)
  refine ⟨n, hn, ?_⟩
  rw [hvalue, readDigits_append, readDigits_append, readDigits_zeros, readDigits_zeros,
    Nat.zero_mul, Nat.zero_mul, List.length_append, List.length_replicate]
  congr 2
  omega

/-- One digit in front of the point, if there are more, and an exponent. -/
theorem reads_scientific (hds : ∀ c ∈ ds, c.isDigit = true) (hne : ds ≠ []) {exp : List Char}
    {e : Int} (he : parseInt? exp = some e) :
    Reads (ds.take 1 ++ ((match ds.drop 1 with | [] => [] | r => '.' :: r) ++ 'e' :: exp)) ds
      (e - ds.length + 1) := by
  obtain ⟨c, r, rfl⟩ := List.exists_cons_of_ne_nil hne
  obtain ⟨hc, hr⟩ := List.forall_mem_cons.mp hds
  have hfirst : ∀ c' ∈ [c], c'.isDigit = true := by simpa using hc
  have hexp : parseExponent? ('e' :: exp) = some e := by simp [parseExponent?, he]
  cases r with
  | nil =>
      have h := parse?_pointless hfirst (by simp) (t := 'e' :: exp) (by simp [Char.isDigit]) hexp
      exact ⟨_, h, by simp [value]⟩
  | cons c' r =>
      have h := parse?_point hfirst (by simp) hr (t := 'e' :: exp) (by simp [Char.isDigit]) hexp
      refine ⟨_, h, ?_⟩
      have hexponent : e - (c' :: r).length = e - (c :: c' :: r).length + 1 := by
        simp only [List.length_cons]
        omega
      simp only [value, List.singleton_append, hexponent]

end Layouts

/-- The digits laid out in any of the four ways are a numeral of the same value. -/
theorem parse?_render (layout : FloatLayout) (d : Nat) (k : Int) :
    ∃ n, parse? (layout.render d k).toList = some n ∧ n.value = d * 10 ^ k := by
  have hpos : 0 < (Nat.toDigits 10 d).length := Nat.length_toDigits_pos
  have hds := @isDigit_toDigits d
  have hne : Nat.toDigits 10 d ≠ [] := Nat.toDigits_ne_nil
  suffices h : Reads (layout.render d k).toList (Nat.toDigits 10 d) k by
    simpa only [Reads, readDigits_toDigits] using h
  unfold FloatLayout.render
  generalize Nat.toDigits 10 d = ds at *
  simp only
  split
  · split
    · next hk =>
        obtain ⟨j, rfl⟩ := Int.eq_ofNat_of_zero_le hk
        simpa using reads_zeros hds hne j
    · next hk =>
        split
        · have h := reads_among hds (w := (k + ds.length - 1 + 1).toNat) (by omega) (by omega)
          rw [show ((k + ds.length - 1 + 1).toNat : Int) - ds.length = k by omega] at h
          simpa using h
        · have h := reads_behind hds (-(k + ds.length - 1) - 1).toNat
          rw [show -((-(k + ds.length - 1) - 1).toNat : Int) - ds.length = k by omega] at h
          simpa using h
  · have hexp : parseInt? ((if layout.plusSign ∧ 0 < k + ds.length - 1 then "+" else "").toList ++
        (toString (k + ds.length - 1)).toList) = some (k + ds.length - 1) := by
      split
      · next hplus => exact parseInt?_plus (by omega)
      · exact parseInt?_toString _
    have h := reads_scientific hds hne hexp
    rw [show k + ds.length - 1 - ds.length + 1 = k by omega] at h
    obtain ⟨c, r, rfl⟩ := List.exists_cons_of_ne_nil hne
    cases r <;> simpa using h

end Decimal

/-- Digits that are laid out have a point or an exponent among them. -/
theorem FloatLayout.exists_notDigit (layout : FloatLayout) (d : Nat) (k : Int) :
    ∃ c ∈ (layout.render d k).toList, c.isDigit = false := by
  unfold render
  simp only
  split
  · refine ⟨'.', ?_, rfl⟩
    split
    · simp
    · split <;> simp
  · exact ⟨'e', by simp, rfl⟩

end Graft
