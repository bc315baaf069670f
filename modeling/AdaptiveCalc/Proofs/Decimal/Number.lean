import AdaptiveCalc.Value
import Mathlib.Algebra.Order.Field.Power
import Mathlib.Data.Rat.Cast.Lemmas
import Mathlib.Tactic.FieldSimp
import Mathlib.Tactic.Linarith
import Mathlib.Tactic.NormNum
import Mathlib.Tactic.Positivity
import Mathlib.Tactic.Ring

/-!
# The number of a decimal

Digits and a scale are one way to write a rational number. Sums, differences and
products are exact on that number, normalizing keeps it, and the normal form and
the text depend on nothing else. Main statements: `same_iff_toRat_eq` and
`Value.text_eq_of_toRat_eq`.
-/
namespace AdaptiveCalc
namespace Decimal

def toRat (a : Decimal) : ℚ := a.digits * (10 : ℚ) ^ (-a.scale)

theorem ten_zpow_pos (k : ℤ) : (0 : ℚ) < 10 ^ k := zpow_pos (by norm_num) k

@[simp] theorem toRat_ofInt (n : ℤ) : (ofInt n).toRat = n := by simp [toRat]

@[simp] theorem toRat_neg (a : Decimal) : a.neg.toRat = -a.toRat := by simp [toRat]

theorem toRat_eq_zero_iff (a : Decimal) : a.toRat = 0 ↔ a.digits = 0 := by
  have h := (ten_zpow_pos (-a.scale)).ne'
  rw [toRat, mul_eq_zero, or_iff_left h, Int.cast_eq_zero]

theorem digitsAt_mul_zpow (a : Decimal) {s : ℤ} (h : a.scale ≤ s) :
    (a.digitsAt s : ℚ) * 10 ^ (-s) = a.toRat := by
  have hs : ((s - a.scale).toNat : ℤ) = s - a.scale := Int.toNat_of_nonneg (by omega)
  have hp : (10 : ℚ) ^ (s - a.scale).toNat = 10 ^ (s - a.scale) := by
    rw [← zpow_natCast, hs]
  rw [digitsAt, toRat, Int.cast_mul, Int.cast_pow, Int.cast_ofNat, hp, mul_assoc,
    ← zpow_add₀ (by norm_num)]
  congr 2
  ring

theorem cast_digitsAt_zero {a : Decimal} (h : a.scale ≤ 0) : (a.digitsAt 0 : ℚ) = a.toRat := by
  simpa using digitsAt_mul_zpow a h

@[simp] theorem toRat_add (a b : Decimal) : (a.add b).toRat = a.toRat + b.toRat := by
  unfold add
  split_ifs with hb ha
  · simp [(toRat_eq_zero_iff b).2 hb]
  · simp [(toRat_eq_zero_iff a).2 ha]
  · have h₁ := digitsAt_mul_zpow a (le_max_left a.scale b.scale)
    have h₂ := digitsAt_mul_zpow b (le_max_right a.scale b.scale)
    rw [← h₁, ← h₂, ← add_mul]
    simp [toRat]

@[simp] theorem toRat_sub (a b : Decimal) : (a.sub b).toRat = a.toRat - b.toRat := by
  rw [sub, toRat_add, toRat_neg, sub_eq_add_neg]

@[simp] theorem toRat_mul (a b : Decimal) : (a.mul b).toRat = a.toRat * b.toRat := by
  have h : (10 : ℚ) ^ (-(a.scale + b.scale)) = 10 ^ (-a.scale) * 10 ^ (-b.scale) := by
    rw [neg_add, zpow_add₀ (by norm_num)]
  simp only [mul, toRat, Int.cast_mul, h]
  ring

theorem normalize_eq {a : Decimal} (h : a.digits ≠ 0) :
    ∃ (m : ℤ) (z : ℕ), a.normalize = ⟨m, a.scale - z⟩ ∧ a.digits = m * 10 ^ z ∧ m % 10 ≠ 0 := by
  obtain ⟨-, hmul⟩ := stripZeros_mul 1 a.digits.natAbs 0
  have hmod : (stripZeros 1 a.digits.natAbs 0).1 % 10 ≠ 0 :=
    stripZeros_mod (Int.natAbs_ne_zero.2 h) Nat.one_pos
  generalize hz : stripZeros 1 a.digits.natAbs 0 = r at hmul hmod
  obtain ⟨n, z⟩ := r
  simp only [Nat.sub_zero] at hmul hmod
  refine ⟨a.digits.sign * n, z, by simp [normalize, h, hz], ?_, ?_⟩
  · conv_lhs => rw [← Int.sign_mul_natAbs a.digits, ← hmul]
    push_cast
    ring
  · rcases lt_or_gt_of_ne h with hneg | hpos
    · rw [Int.sign_eq_neg_one_of_neg hneg]
      omega
    · rw [Int.sign_eq_one_of_pos hpos]
      omega

@[simp] theorem toRat_normalize (a : Decimal) : a.normalize.toRat = a.toRat := by
  by_cases h : a.digits = 0
  · simp [normalize, h, toRat]
  · obtain ⟨m, z, hn, hd, -⟩ := normalize_eq h
    have hs : (10 : ℚ) ^ (-(a.scale - z)) = 10 ^ z * 10 ^ (-a.scale) := by
      rw [← zpow_natCast, ← zpow_add₀ (by norm_num)]
      congr 1
      ring
    rw [hn, toRat, toRat, hd, hs]
    push_cast
    ring

/-- Digits that end in no zero, with their scale, are the only such writing of a number. -/
theorem eq_of_toRat_eq {m n s t : ℤ} (hm : m % 10 ≠ 0) (hn : n % 10 ≠ 0)
    (h : (⟨m, s⟩ : Decimal).toRat = (⟨n, t⟩ : Decimal).toRat) : m = n ∧ s = t := by
  wlog hst : s ≤ t generalizing m n s t
  · obtain ⟨h₁, h₂⟩ := this hn hm h.symm (by omega)
    exact ⟨h₁.symm, h₂.symm⟩
  obtain ⟨k, rfl⟩ := Int.le.dest hst
  have hp := (ten_zpow_pos (-(s + k))).ne'
  have hs : (10 : ℚ) ^ (-s) = 10 ^ k * 10 ^ (-(s + k)) := by
    rw [← zpow_natCast, ← zpow_add₀ (by norm_num)]
    congr 1
    ring
  have he : (m : ℚ) * 10 ^ k = n := by
    simp only [toRat, hs, ← mul_assoc] at h
    exact mul_right_cancel₀ hp h
  have hi : m * 10 ^ k = n := by exact_mod_cast he
  cases k with
  | zero => simpa using hi
  | succ k =>
    have : n = m * 10 ^ k * 10 := by rw [← hi, pow_succ, mul_assoc]
    omega

theorem normalize_eq_of_toRat_eq {a b : Decimal} (h : a.toRat = b.toRat) :
    a.normalize = b.normalize := by
  by_cases ha : a.digits = 0
  · have hb : b.digits = 0 := by rwa [← toRat_eq_zero_iff, ← h, toRat_eq_zero_iff]
    simp [normalize, ha, hb]
  · have hb : b.digits ≠ 0 := by rwa [Ne, ← toRat_eq_zero_iff, ← h, toRat_eq_zero_iff]
    obtain ⟨m, z, hm, -, hm'⟩ := normalize_eq ha
    obtain ⟨n, y, hn, -, hn'⟩ := normalize_eq hb
    rw [← toRat_normalize a, ← toRat_normalize b, hm, hn] at h
    obtain ⟨h₁, h₂⟩ := eq_of_toRat_eq hm' hn' h
    rw [hm, hn, h₁, h₂]

theorem same_iff_toRat_eq (a b : Decimal) : a.Same b ↔ a.toRat = b.toRat := by
  constructor
  · intro h
    rw [← toRat_normalize a, ← toRat_normalize b]
    exact congrArg toRat h
  · exact normalize_eq_of_toRat_eq

theorem canonicalChars_eq_of_toRat_eq {a b : Decimal} (h : a.toRat = b.toRat) :
    a.canonicalChars = b.canonicalChars := by
  rw [canonicalChars, canonicalChars, normalize_eq_of_toRat_eq h]

theorem naturalChars_mul_ten_pow {m : ℕ} (hm : m ≠ 0) (z : ℕ) :
    naturalChars (m * 10 ^ z) = naturalChars m ++ List.replicate z '0' := by
  induction z with
  | zero => simp
  | succ z ih =>
    have hpos : 0 < m * 10 ^ z := by positivity
    have hne : ¬ m * 10 ^ z * 10 < 10 := by omega
    rw [naturalChars_eq, naturalChars_eq] at ih
    rw [naturalChars_eq, naturalChars_eq, pow_succ, ← mul_assoc,
      Nat.toDigits_eq_if (by decide), if_neg hne, Nat.mul_div_cancel _ (by decide), ih,
      List.replicate_succ', List.append_assoc]
    simp

theorem signChars_mul_ten_pow (n : ℤ) (z : ℕ) : signChars (n * 10 ^ z) = signChars n := by
  have hp : (0 : ℤ) < 10 ^ z := by positivity
  have : n * 10 ^ z < 0 ↔ n < 0 := by
    rw [mul_neg_iff]
    omega
  simp only [signChars, this]

theorem canonicalChars_ofInt (n : ℤ) : (ofInt n).canonicalChars = integerChars n := by
  by_cases hn : n = 0
  · simp [hn, canonicalChars, normalize, plainChars, integerChars]
  obtain ⟨m, z, h, hd, hm⟩ := normalize_eq (a := ofInt n) hn
  have hm₀ : m ≠ 0 := by rintro rfl; simp at hm
  have habs : n.natAbs = m.natAbs * 10 ^ z := by
    rw [← digits_ofInt n, hd, Int.natAbs_mul, Int.natAbs_pow]
    rfl
  have hsign : signChars n = signChars m := by
    rw [← digits_ofInt n, hd, signChars_mul_ten_pow]
  rw [canonicalChars, h, plainChars, integerChars, habs,
    naturalChars_mul_ten_pow (Int.natAbs_ne_zero.2 hm₀), hsign]
  simp
end Decimal

namespace Value

def toRat (v : Value) : ℚ := v.toDecimal.toRat

@[simp] theorem toRat_fast (n : Int64) : (fast n).toRat = n.toInt := by simp [toRat]

@[simp] theorem toRat_precise (d : Decimal) : (precise d).toRat = d.toRat := rfl

theorem toDecimal_negate (v : Value) : v.negate.toDecimal = v.toDecimal.neg := by
  cases v with
  | precise d => rfl
  | fast n =>
    simp only [negate]
    cases hn : Fast.negate n with
    | ok m =>
      rw [toDecimal_fast, Fast.toInt_of_narrow hn]
      rfl
    | error failure => rfl

theorem chars_eq (v : Value) : v.chars = v.toDecimal.canonicalChars := by
  cases v with
  | fast n => exact (Decimal.canonicalChars_ofInt n.toInt).symm
  | precise d => rfl

/-- The text shows the number and nothing else. -/
theorem text_eq_of_toRat_eq {v w : Value} (h : v.toRat = w.toRat) : v.text = w.text := by
  rw [text, text, chars_eq, chars_eq, Decimal.canonicalChars_eq_of_toRat_eq h]

end Value
end AdaptiveCalc
