import AdaptiveCalc.Proofs.Decimal.Division
import Mathlib.Algebra.Order.Floor.Semifield

/-!
# How far a long division reaches

A division counts the zeros that it writes behind the dividend from the lengths of the two
numbers alone. That is enough for a quotient longer than what is kept of it, so the digit that
stands for the remainder lies below the one that decides the rounding. With one zero less it may
be that digit itself, and the result is then wrong. Main statements:
`quotient_reaches_past_precision` and `misrounded_with_one_zero_less`.
-/
namespace AdaptiveCalc

/-- The place of the last digit kept of `n`. Its last digit is at place zero, and the rounding
digit is one place below the last one kept. -/
def lastKept (precision n : ℕ) : ℕ := lengthOf n - precision

/-- The digits of `z`, the last one in the place of a remainder. Rounded to `precision` digits
they give what `z` gives, since the last one is neither kept nor the rounding digit. -/
structure EndsInSticky (precision digits : ℕ) (z : ℚ) : Prop where
  two_le_lastKept : 2 ≤ lastKept precision digits
  /-- The digits kept and the rounding digit are those of the number itself. -/
  leading : digits / 10 ^ (lastKept precision digits - 1) =
    ⌊z / 10 ^ (lastKept precision digits - 1)⌋₊
  rounded : Rounded precision z
    (roundHalfEven digits (10 ^ lastKept precision digits) * 10 ^ lastKept precision digits)

/-- Only the last digit of `n / d * 10 + 1` is not one of the exact quotient. -/
theorem sticky_div_ten_pow (n d k : ℕ) :
    (n / d * 10 + 1) / 10 ^ (k + 1) = ⌊(n : ℚ) / d * 10 / 10 ^ (k + 1)⌋₊ := by
  have hcut : (n : ℚ) / d * 10 / 10 ^ (k + 1) = (n : ℚ) / ((d * 10 ^ k : ℕ) : ℚ) := by
    rw [pow_succ, mul_div_mul_right _ _ (by norm_num), div_div]
    push_cast
    rfl
  have hten : (n / d * 10 + 1) / 10 = n / d := by omega
  rw [hcut, Nat.floor_div_eq_div, pow_succ', ← Nat.div_div_eq_div_mul, hten,
    Nat.div_div_eq_div_mul]

theorem endsInSticky_of_lt_lengthOf {precision n d : ℕ} (hp : 0 < precision) (hd : 0 < d)
    (hq : precision < lengthOf (n / d)) (hrest : n % d ≠ 0) :
    EndsInSticky precision (n / d * 10 + 1) ((n : ℚ) / d * 10) := by
  have hlen := lengthOf_mul_ten_add_one (pos_of_lt_lengthOf hp hq).ne'
  obtain ⟨k, hk⟩ : ∃ k, lastKept precision (n / d * 10 + 1) = k + 2 :=
    ⟨lengthOf (n / d) - (precision + 1), by simp only [lastKept, hlen]; omega⟩
  obtain ⟨j, hj⟩ := Decimal.exists_stands_stickyQuotient hp hd hq
  rw [Decimal.stickyQuotient, if_neg hrest, pow_one] at hj
  have hlen' : lengthOf (n / d * 10 + 1) = precision + j := hj.length
  obtain rfl : j = k + 2 := by
    simp only [lastKept] at hk
    omega
  refine ⟨by omega, ?_, ?_⟩
  · rw [hk]
    exact sticky_div_ten_pow n d k
  · rw [hk, ← hj.roundTo_eq]
    exact rounded_roundTo ..

namespace Decimal
variable {precision : ℕ} {a b : Decimal}

theorem natCast_quotientShift (precision : ℕ) (a b : Decimal) :
    (quotientShift precision a b : ℤ) =
      max 0 (((precision + 1 + b.digitCount : ℕ) : ℤ) - a.digitCount) := by
  simp only [quotientShift]
  omega

theorem ite_eq_sign_mul {x y : ℤ} (hx : x ≠ 0) (hy : y ≠ 0) (z : ℤ) :
    (if decide (x < 0) != decide (y < 0) then -z else z) = (x * y).sign * z := by
  rw [Int.sign_mul]
  rcases lt_or_gt_of_ne hx with hx | hx <;> rcases lt_or_gt_of_ne hy with hy | hy <;>
    simp [hx, hy, hx.not_gt, hy.not_gt, Int.sign_eq_one_of_pos, Int.sign_eq_neg_one_of_neg]

theorem divide_eq_round (precision : ℕ) (ha : a.digits ≠ 0) (hb : b.digits ≠ 0) :
    divide precision a b = round precision
      ⟨(a.digits * b.digits).sign *
          (stickyQuotient (dividend precision a b) b.digits.natAbs).1,
        a.scale - b.scale + quotientShift precision a b +
          (stickyQuotient (dividend precision a b) b.digits.natAbs).2⟩ := by
  simp only [divide, ite_eq_sign_mul ha hb]

/-- A digit that stands for a remainder is lost where it is the rounding digit. -/
theorem round_sticky_of_lengthOf_eq {q : ℕ} (hq : q ≠ 0) (hlen : lengthOf q = precision) (s : ℤ) :
    round precision ⟨(q * 10 + 1 : ℕ), s⟩ = ⟨q, s - 1⟩ := by
  have hexcess : lengthOf (q * 10 + 1) - precision = 1 := by
    rw [lengthOf_mul_ten_add_one hq]
    omega
  have hround : roundHalfEven (q * 10 + 1) (10 ^ 1) = q := by
    simp only [roundHalfEven, pow_one]
    rw [if_neg (by omega)]
    omega
  have hsign : ((q * 10 + 1 : ℕ) : ℤ).sign = 1 := Int.sign_eq_one_of_pos (by omega)
  simp only [round, digitCount, Int.natAbs_natCast, hexcess, hround, hsign]
  simp

/-- A remainder above the half is rounded away when the quotient has no digit to spare. -/
theorem toRat_round_sticky_ne {n d : ℕ} (hd : 0 < d) (hq : n / d ≠ 0)
    (hlen : lengthOf (n / d) = precision) (hrest : d < 2 * (n % d)) :
    (round precision ⟨(stickyQuotient n d).1, (stickyQuotient n d).2⟩).toRat ≠
      roundTo precision ((n : ℚ) / d) := by
  have hsticky : stickyQuotient n d = (n / d * 10 + 1, 1) := if_neg (by omega)
  have hup : nearestEven ((n : ℚ) / d) = (n / d + 1 : ℕ) := by
    rw [nearestEven_div n hd, roundHalfEven]
    exact congrArg _ (if_pos (Or.inl hrest))
  have hfloor : ⌊(n : ℚ) / d⌋₊ = n / d := Nat.floor_div_eq_div n d
  have hz : (0 : ℚ) < (n : ℚ) / d :=
    div_pos (by exact_mod_cast Nat.pos_of_ne_zero (by rintro rfl; simp at hq))
      (by exact_mod_cast hd)
  have hlo : ((n / d : ℕ) : ℚ) ≤ (n : ℚ) / d := hfloor ▸ Nat.floor_le hz.le
  have hhi : (n : ℚ) / d < (n / d : ℕ) + 1 := hfloor ▸ Nat.lt_floor_add_one _
  have hlog := log_eq_lengthOf_sub_one hq hlo hhi
  rw [hlen] at hlog
  have hexact : roundTo precision ((n : ℚ) / d) = (n / d + 1 : ℕ) := by
    rw [roundTo_of_log (k := 0) hz hlog, pow_zero, div_one, mul_one, hup, Int.cast_natCast]
  have hkept : (round precision ⟨(n / d * 10 + 1 : ℕ), (1 : ℕ)⟩).toRat = (n / d : ℕ) := by
    rw [round_sticky_of_lengthOf_eq hq hlen, toRat]
    simp only [Int.cast_natCast, Nat.cast_one, sub_self, neg_zero, zpow_zero, mul_one]
  rw [hsticky, hkept, hexact, Ne, Nat.cast_inj]
  omega

/-- With one zero less, 2 by 3 goes wrong to any number of digits. -/
theorem misrounded_with_one_zero_less (hp : 0 < precision) :
    let n := 2 * 10 ^ (quotientShift precision (ofInt 2) (ofInt 3) - 1)
    lengthOf (n / 3) = precision ∧
      (round precision ⟨(stickyQuotient n 3).1, (stickyQuotient n 3).2⟩).toRat ≠
        roundTo precision ((n : ℚ) / 3) := by
  intro n
  have htwo : (ofInt 2).digitCount = 1 := lengthOf_eq_of_bounds (k := 0) (by decide) (by decide)
  have hthree : (ofInt 3).digitCount = 1 := lengthOf_eq_of_bounds (k := 0) (by decide) (by decide)
  obtain ⟨k, rfl⟩ : ∃ k, precision = k + 1 := ⟨precision - 1, by omega⟩
  have hn : n = 2 * 10 ^ (k + 1) := by
    simp only [n, quotientShift, htwo, hthree, Nat.add_sub_cancel]
  have hten : 10 ^ (k + 1) % 3 = 1 := by simp [Nat.pow_mod]
  have hpow : 10 ^ (k + 1) = 10 ^ k * 10 := pow_succ ..
  have hpos : 0 < 10 ^ k := by positivity
  have hlen : lengthOf (n / 3) = k + 1 := lengthOf_eq_of_bounds (by omega) (by omega)
  refine ⟨hlen, ?_⟩
  exact_mod_cast toRat_round_sticky_ne (by decide : 0 < 3) (by omega) hlen (by omega)

/-- The quotient of the digits has more digits than are kept, whatever the lengths of the two
numbers. So a remainder is remembered below the rounding digit and not in its place. -/
theorem quotient_reaches_past_precision {precision : ℕ} (hp : 0 < precision) (a b : Decimal)
    (ha : a.toRat ≠ 0) (hb : b.toRat ≠ 0) (hcount : precision + 1 + b.digitCount < 2 ^ 32) :
    let shift := quotientShift precision a b
    let n := a.digits.natAbs * 10 ^ shift
    let d := b.digits.natAbs
    let sign := (a.digits * b.digits).sign
    let scale := a.scale - b.scale + shift
    (shift : ℤ) = max 0 (((precision + 1 + b.digitCount : ℕ) : ℤ) - a.digitCount) ∧
      dividend precision a b = n ∧
      precision + 1 ≤ lengthOf (n / d) ∧
      (n % d = 0 → divide precision a b = round precision ⟨sign * (n / d : ℕ), scale⟩) ∧
      (n % d ≠ 0 → EndsInSticky precision (n / d * 10 + 1) ((n : ℚ) / d * 10) ∧
        divide precision a b = round precision ⟨sign * (n / d * 10 + 1 : ℕ), scale + 1⟩) ∧
      Rounded precision (a.toRat / b.toRat) (divide precision a b).toRat := by
  intro shift n d sign scale
  rw [Ne, toRat_eq_zero_iff] at ha hb
  have hshift : shift < 2 ^ 32 := quotientShift_lt a hcount
  have hdividend : dividend precision a b = n := dividend_eq hshift
  have hlen : precision < lengthOf (n / d) := lt_lengthOf_quotient ha hb
  have hdivide := divide_eq_round precision ha hb
  rw [hdividend, stickyQuotient] at hdivide
  refine ⟨natCast_quotientShift .., hdividend, hlen, fun hrest => ?_, fun hrest => ⟨?_, ?_⟩, ?_⟩
  · rw [hdivide, if_pos hrest]
    simp [sign, scale, shift, d]
  · exact endsInSticky_of_lt_lengthOf hp (Int.natAbs_pos.2 hb) hlen hrest
  · rw [hdivide, if_neg hrest]
    rfl
  · rw [toRat_divide hp hb fun _ => hshift]
    exact rounded_roundTo ..

/-- To one digit, -1 by 39 is -0.03. The quotient 25 is no longer than it must be and ends like
a half; only the digit behind it tells that there is more. -/
theorem quotient_reaches_past_precision_aboveHalf :
    let a : Decimal := ⟨-1, 0⟩
    let b : Decimal := ⟨39, 0⟩
    0 < 1 ∧ a.toRat ≠ 0 ∧ b.toRat ≠ 0 ∧ 1 + 1 + b.digitCount < 2 ^ 32 ∧
      dividend 1 a b = 1000 ∧ 1000 / 39 = 25 ∧ 1000 % 39 ≠ 0 ∧ lengthOf 25 = 1 + 1 ∧
      EndsInSticky 1 (25 * 10 + 1) (1000 / 39 * 10) ∧
      divide 1 a b = round 1 ⟨-251, 4⟩ ∧ divide 1 a b = ⟨-3, 2⟩ ∧
      Rounded 1 (a.toRat / b.toRat) (⟨-3, 2⟩ : Decimal).toRat := by
  intro a b
  have ha : a.toRat ≠ 0 := by simp [a, toRat_eq_zero_iff]
  have hb : b.toRat ≠ 0 := by simp [b, toRat_eq_zero_iff]
  have hcount : 1 + 1 + b.digitCount < 2 ^ 32 := by decide +kernel
  have hlen : lengthOf 25 = 1 + 1 := lengthOf_eq_of_bounds (by decide) (by decide)
  have hresult : divide 1 a b = ⟨-3, 2⟩ := by decide +kernel
  have hshift : quotientShift 1 a b = 3 := by decide +kernel
  have hsign : (a.digits * b.digits).sign = -1 := rfl
  obtain ⟨-, hdividend, -, -, hsticky, hround⟩ :=
    quotient_reaches_past_precision (by decide : 0 < 1) a b ha hb hcount
  rw [hshift] at hdividend hsticky
  obtain ⟨hends, hdivide⟩ := hsticky (by decide)
  rw [hsign] at hdivide
  rw [hresult] at hround
  refine ⟨by decide, ha, hb, hcount, ?_, by decide, by decide, hlen, ?_, ?_, hresult, hround⟩
  · simpa [a] using hdividend
  · simpa [a, b] using hends
  · simpa [a, b] using hdivide

end Decimal
end AdaptiveCalc
