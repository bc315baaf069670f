import AdaptiveCalc.Decimal.Digits
import Mathlib.Tactic.Positivity
import Mathlib.Tactic.Ring

/-!
# How long numbers are

The number of decimal digits beside the powers of ten around a number. Digits written
behind a number add their count to its length; a truncated quotient is at least as long as
the two lengths differ. Main statements: `lengthOf_mul_ten_pow_add` and
`lengthOf_le_lengthOf_div_add`.
-/
namespace AdaptiveCalc

theorem lt_ten_pow_lengthOf (n : ℕ) : n < 10 ^ lengthOf n :=
  (lengthOf_le_iff (lengthOf_pos n)).1 le_rfl

theorem ten_pow_le_iff_lt_lengthOf {n k : ℕ} (hk : 0 < k) : 10 ^ k ≤ n ↔ k < lengthOf n := by
  rw [← not_lt, ← lengthOf_le_iff hk, not_le]

theorem ten_pow_pred_lengthOf_le {n : ℕ} (hn : n ≠ 0) : 10 ^ (lengthOf n - 1) ≤ n := by
  rcases Nat.eq_zero_or_pos (lengthOf n - 1) with h | h
  · rw [h, pow_zero]
    omega
  · rw [ten_pow_le_iff_lt_lengthOf h]
    omega

theorem pos_of_lt_lengthOf {n k : ℕ} (hk : 0 < k) (h : k < lengthOf n) : 0 < n :=
  (by positivity : 0 < 10 ^ k).trans_le ((ten_pow_le_iff_lt_lengthOf hk).2 h)

theorem lengthOf_eq_of_bounds {n k : ℕ} (hlo : 10 ^ k ≤ n) (hhi : n < 10 ^ (k + 1)) :
    lengthOf n = k + 1 := by
  have hle := (lengthOf_le_iff (Nat.succ_pos k)).2 hhi
  rcases Nat.eq_zero_or_pos k with rfl | hk
  · have := lengthOf_pos n
    omega
  · have := (ten_pow_le_iff_lt_lengthOf hk).1 hlo
    omega

/-- Digits written behind a number other than zero, zeros in front of them included. -/
theorem lengthOf_mul_ten_pow_add {n k r : ℕ} (hn : n ≠ 0) (hr : r < 10 ^ k) :
    lengthOf (n * 10 ^ k + r) = lengthOf n + k := by
  have hlo := ten_pow_pred_lengthOf_le hn
  have hhi := lt_ten_pow_lengthOf n
  have hpos := lengthOf_pos n
  rw [show lengthOf n + k = lengthOf n - 1 + k + 1 by omega]
  apply lengthOf_eq_of_bounds
  · calc 10 ^ (lengthOf n - 1 + k)
        = 10 ^ (lengthOf n - 1) * 10 ^ k := pow_add ..
      _ ≤ n * 10 ^ k := Nat.mul_le_mul_right _ hlo
      _ ≤ n * 10 ^ k + r := Nat.le_add_right ..
  · calc n * 10 ^ k + r
        < n * 10 ^ k + 10 ^ k := Nat.add_lt_add_left hr _
      _ = (n + 1) * 10 ^ k := by ring
      _ ≤ 10 ^ lengthOf n * 10 ^ k := Nat.mul_le_mul_right _ hhi
      _ = 10 ^ (lengthOf n - 1 + k + 1) := by
        rw [← pow_add]
        congr 1
        omega

theorem lengthOf_mul_ten_pow {n : ℕ} (hn : n ≠ 0) (k : ℕ) :
    lengthOf (n * 10 ^ k) = lengthOf n + k :=
  lengthOf_mul_ten_pow_add hn (by positivity)

theorem lengthOf_mul_ten_add_one {n : ℕ} (hn : n ≠ 0) :
    lengthOf (n * 10 + 1) = lengthOf n + 1 :=
  lengthOf_mul_ten_pow_add (k := 1) hn (by decide)

/-- A quotient is as long as the lengths differ, or longer. -/
theorem lengthOf_le_lengthOf_div_add {n d : ℕ} (hd : 0 < d) :
    lengthOf n ≤ lengthOf (n / d) + lengthOf d := by
  have hq : n / d + 1 ≤ 10 ^ lengthOf (n / d) := lt_ten_pow_lengthOf (n / d)
  rw [lengthOf_le_iff (by have := lengthOf_pos d; omega)]
  calc n
      < (n / d + 1) * d := Nat.lt_mul_of_div_lt (Nat.lt_succ_self _) hd
    _ ≤ 10 ^ lengthOf (n / d) * 10 ^ lengthOf d :=
      Nat.mul_le_mul hq (lt_ten_pow_lengthOf d).le
    _ = 10 ^ (lengthOf (n / d) + lengthOf d) := (pow_add ..).symm

end AdaptiveCalc
