import AdaptiveCalc.Decimal.Division
import AdaptiveCalc.Proofs.Decimal.Length
import AdaptiveCalc.Proofs.Decimal.Rounding

/-!
# Quotients are rounded once

The long division yields more digits than are kept, so the digit that stands for its
remainder lies behind the rounding digit and the rounding of its digits is that of
the exact quotient. Main statements: `lt_lengthOf_quotient` and `toRat_divide`.
-/
namespace AdaptiveCalc

theorem log_eq_lengthOf_sub_one {q : ℕ} {z : ℚ} (hq : q ≠ 0) (hlo : (q : ℚ) ≤ z)
    (hhi : z < q + 1) : Int.log 10 z = lengthOf q - 1 := by
  have hlen := lengthOf_pos q
  have hmin : 10 ^ (lengthOf q - 1) ≤ q := ten_pow_pred_lengthOf_le hq
  have hmax : q + 1 ≤ 10 ^ lengthOf q := lt_ten_pow_lengthOf q
  rw [← Nat.cast_pred hlen]
  apply log_eq_of_bounds
  · rw [zpow_natCast]
    exact le_trans (by exact_mod_cast hmin) hlo
  · rw [Nat.cast_pred hlen, sub_add_cancel, zpow_natCast]
    exact hhi.trans_le (by exact_mod_cast hmax)

namespace Decimal

/-- The truncated quotient has more digits than are kept, also when the dividend is so
long that no zeros are written behind it. -/
theorem lt_lengthOf_quotient {precision : ℕ} {a b : Decimal} (ha : a.digits ≠ 0)
    (hb : b.digits ≠ 0) :
    precision <
      lengthOf (a.digits.natAbs * 10 ^ quotientShift precision a b / b.digits.natAbs) := by
  have h := lengthOf_le_lengthOf_div_add (n := a.digits.natAbs * 10 ^ quotientShift precision a b)
    (Int.natAbs_pos.2 hb)
  rw [lengthOf_mul_ten_pow (Int.natAbs_ne_zero.2 ha)] at h
  simp only [quotientShift, digitCount] at h ⊢
  omega

theorem quotientShift_lt {precision : ℕ} (a : Decimal) {b : Decimal}
    (hcount : precision + 1 + b.digitCount < 2 ^ 32) : quotientShift precision a b < 2 ^ 32 :=
  (Nat.sub_le ..).trans_lt hcount

theorem dividend_eq {precision : ℕ} {a b : Decimal}
    (hshift : quotientShift precision a b < 2 ^ 32) :
    dividend precision a b = a.digits.natAbs * 10 ^ quotientShift precision a b := by
  rw [dividend, Nat.mod_eq_of_lt hshift]

/-- Digits that may be rounded in the place of the number `z`: `k` of them are too many. -/
structure Stands (precision : ℕ) (digits : ℕ) (z : ℚ) (k : ℕ) : Prop where
  pos : 0 < z
  digits_pos : 0 < digits
  excess_pos : 0 < k
  length : lengthOf digits = precision + k
  log : Int.log 10 z = (precision + k : ℕ) - 1
  nearest : nearestEven (z / 10 ^ k) = roundHalfEven digits (10 ^ k)

theorem Stands.of_natCast {precision n : ℕ} (hp : 0 < precision) (hlen : precision < lengthOf n) :
    ∃ k, Stands precision n n k := by
  have hpos := pos_of_lt_lengthOf hp hlen
  obtain ⟨k, hk⟩ := Nat.exists_eq_add_of_lt hlen
  refine ⟨k + 1, by exact_mod_cast hpos, hpos, by omega, by omega, ?_, ?_⟩
  · rw [log_eq_lengthOf_sub_one hpos.ne' le_rfl (lt_add_one _), hk]
    rfl
  · have h := nearestEven_div n (by positivity : 0 < 10 ^ (k + 1))
    push_cast at h
    exact h

/-- The digit `1` behind a quotient stands for what the division leaves over. -/
theorem Stands.of_remainder {precision q : ℕ} {z : ℚ} (hp : 0 < precision)
    (hq : precision < lengthOf q) (hlo : (q : ℚ) < z) (hhi : z < q + 1) :
    ∃ k, Stands precision (q * 10 + 1) (z * 10) k := by
  have hqpos := pos_of_lt_lengthOf hp hq
  have hlen := lengthOf_mul_ten_add_one hqpos.ne'
  have hz : 0 < z := (by exact_mod_cast hqpos : (0 : ℚ) < q).trans hlo
  obtain ⟨k, hk⟩ := Nat.exists_eq_add_of_lt hq
  refine ⟨k + 2, by linarith, by omega, by omega, by omega, ?_, ?_⟩
  · have hlog := log_mul_zpow hz 1
    rw [zpow_one, log_eq_lengthOf_sub_one hqpos.ne' hlo.le hhi, hk] at hlog
    omega
  · apply nearestEven_div_of_sticky (by omega) (by omega)
    · push_cast
      linarith
    · push_cast
      linarith

theorem exists_stands_stickyQuotient {precision n d : ℕ} (hp : 0 < precision) (hd : 0 < d)
    (hq : precision < lengthOf (n / d)) :
    ∃ k, Stands precision (stickyQuotient n d).1 ((n : ℚ) / d * 10 ^ (stickyQuotient n d).2) k := by
  have hd' : (0 : ℚ) < d := by exact_mod_cast hd
  have hn : (n : ℚ) = d * (n / d : ℕ) + (n % d : ℕ) := by
    exact_mod_cast (Nat.div_add_mod n d).symm
  unfold stickyQuotient
  split_ifs with h
  · have hz : (n : ℚ) / d = (n / d : ℕ) := by
      rw [div_eq_iff hd'.ne', hn, h]
      push_cast
      ring
    rw [hz, pow_zero, mul_one]
    exact Stands.of_natCast hp hq
  · have hpos : (0 : ℚ) < (n % d : ℕ) := by exact_mod_cast Nat.pos_of_ne_zero h
    have hlt : ((n % d : ℕ) : ℚ) < d := by exact_mod_cast Nat.mod_lt n hd
    rw [pow_one]
    refine Stands.of_remainder hp hq ?_ ?_
    · rw [lt_div_iff₀ hd', hn]
      linarith
    · rw [div_lt_iff₀ hd', hn]
      linarith

theorem Stands.roundTo_eq {precision digits k : ℕ} {z : ℚ} (h : Stands precision digits z k) :
    roundTo precision z = roundHalfEven digits (10 ^ k) * 10 ^ k := by
  rw [roundTo_of_log h.pos h.log, h.nearest]
  push_cast
  rfl

theorem round_neg (precision : ℕ) (a : Decimal) :
    round precision a.neg = (round precision a).neg := by
  have hcount : a.neg.digitCount = a.digitCount := congrArg lengthOf (Int.natAbs_neg _)
  by_cases h : a.digitCount - precision = 0
  · simp only [round, hcount, h, if_true]
  · simp only [round, hcount, h, if_false, digits_neg, scale_neg, Int.natAbs_neg, Int.sign_neg,
      Int.neg_mul]
    rfl

theorem Stands.toRat_round {precision digits k : ℕ} {z : ℚ} (h : Stands precision digits z k)
    (negative : Bool) (s : ℤ) :
    (round precision ⟨if negative then -digits else digits, s⟩).toRat =
      roundTo precision ((if negative then -z else z) * 10 ^ (-s)) := by
  have hexcess : lengthOf digits - precision = k := by rw [h.length]; omega
  have hscale : (10 : ℚ) ^ (-(s - k)) = 10 ^ k * 10 ^ (-s) := by
    rw [← zpow_natCast, ← zpow_add₀ (by norm_num)]
    congr 1
    ring
  have hpos : (round precision ⟨digits, s⟩).toRat = roundTo precision (z * 10 ^ (-s)) := by
    rw [roundTo_mul_zpow, h.roundTo_eq]
    simp only [round, digitCount, Int.natAbs_natCast, hexcess, if_neg h.excess_pos.ne', toRat,
      Int.sign_eq_one_of_pos (Int.natCast_pos.2 h.digits_pos), hscale]
    push_cast
    ring
  cases negative with
  | false => exact hpos
  | true =>
    have hneg : (⟨-digits, s⟩ : Decimal) = neg ⟨digits, s⟩ := rfl
    simp only [if_true]
    rw [hneg, round_neg, toRat_neg, hpos, neg_mul, roundTo_neg]

theorem toRat_eq_signed (a : Decimal) :
    a.toRat = (if a.digits < 0 then -(a.digits.natAbs : ℚ) else a.digits.natAbs) *
      10 ^ (-a.scale) := by
  rw [toRat]
  congr 1
  split_ifs with h
  · have : a.digits = -(a.digits.natAbs : ℤ) := by omega
    rw [this]
    simp
  · have : a.digits = a.digits.natAbs := by omega
    rw [this]
    simp

theorem toRat_div_toRat (a b : Decimal) (shift : ℕ) :
    a.toRat / b.toRat =
      (if decide (a.digits < 0) != decide (b.digits < 0) then
        -(((a.digits.natAbs * 10 ^ shift : ℕ) : ℚ) / b.digits.natAbs)
      else ((a.digits.natAbs * 10 ^ shift : ℕ) : ℚ) / b.digits.natAbs) *
        10 ^ (-(a.scale - b.scale + shift)) := by
  have hscale : (10 : ℚ) ^ shift * 10 ^ (-(a.scale - b.scale + shift)) =
      10 ^ (-a.scale) / 10 ^ (-b.scale) := by
    rw [← zpow_natCast, ← zpow_add₀ (by norm_num), ← zpow_sub₀ (by norm_num)]
    congr 1
    ring
  rw [toRat_eq_signed a, toRat_eq_signed b, mul_div_mul_comm, ← hscale]
  generalize (10 : ℚ) ^ (-(a.scale - b.scale + shift)) = u
  push_cast
  by_cases ha : a.digits < 0 <;> by_cases hb : b.digits < 0 <;> simp [ha, hb] <;> ring

/-- A quotient is the exact one, rounded. The zeros behind a dividend are counted with 32
bits, so there must be fewer than `2 ^ 32` of them. -/
theorem toRat_divide {precision : ℕ} (hp : 0 < precision) {a b : Decimal} (hb : b.digits ≠ 0)
    (hshift : a.digits ≠ 0 → quotientShift precision a b < 2 ^ 32) :
    (divide precision a b).toRat = roundTo precision (a.toRat / b.toRat) := by
  by_cases ha : a.digits = 0
  · have hexcess : lengthOf 0 - precision = 0 := by
      have := (lengthOf_le_iff hp).2 (Nat.pow_pos (show 0 < 10 by decide))
      omega
    rw [(toRat_eq_zero_iff a).2 ha, zero_div, roundTo_zero, toRat_eq_zero_iff]
    simp [divide, dividend, ha, stickyQuotient, round, digitCount, hexcess]
  · have hB : 0 < b.digits.natAbs := Int.natAbs_pos.2 hb
    obtain ⟨k, hk⟩ := exists_stands_stickyQuotient hp hB (lt_lengthOf_quotient ha hb)
    rw [divide, dividend_eq (hshift ha)]
    simp only []
    rw [hk.toRat_round, toRat_div_toRat a b (quotientShift precision a b)]
    generalize (stickyQuotient _ _).2 = extra
    have hscale : (10 : ℚ) ^ (-(a.scale - b.scale + quotientShift precision a b)) =
        10 ^ extra * 10 ^ (-(a.scale - b.scale + quotientShift precision a b + extra)) := by
      rw [← zpow_natCast, ← zpow_add₀ (by norm_num)]
      congr 1
      ring
    rw [hscale]
    congr 1
    split_ifs <;> ring

end Decimal
end AdaptiveCalc
