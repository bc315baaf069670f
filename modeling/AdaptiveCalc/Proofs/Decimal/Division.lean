import AdaptiveCalc.Proofs.Decimal.Quotient

/-!
# Division on decimals

A division fails for a divisor of zero and for no other. Otherwise its result is the exact
quotient of the two numbers, rounded to nearest in a single step, whichever digits and scales
the numbers are written with. Main statement: `division_rounded_once`.
-/
namespace AdaptiveCalc

/-- The number `q` is `z` to `precision` significant digits, a half to the even neighbour. -/
structure Rounded (precision : ℕ) (z q : ℚ) : Prop where
  zero : z = 0 → q = 0
  nearest : z ≠ 0 → ∃ e : ℤ, (10 : ℚ) ^ e ≤ |z| ∧ |z| < 10 ^ (e + 1) ∧
    q = 10 ^ (e - precision + 1) * nearestEven (z / 10 ^ (e - precision + 1))
  /-- What has no more digits is kept. -/
  exact : ∀ m t : ℤ, |m| < 10 ^ precision → z = m * 10 ^ t → q = z

theorem rounded_roundTo (precision : ℕ) (z : ℚ) : Rounded precision z (roundTo precision z) where
  zero hz := by rw [hz, roundTo_zero]
  nearest hz := by
    have hlo := Int.zpow_log_le_self (b := 10) (by norm_num) (abs_pos.2 hz)
    have hhi := Int.lt_zpow_succ_log_self (b := 10) (by norm_num) |z|
    push_cast at hlo hhi
    exact ⟨Int.log 10 |z|, hlo, hhi, mul_comm ..⟩
  exact m t hm hz := by rw [hz, roundTo_eq_self hm]

namespace Rounded
variable {precision : ℕ} {z q q' : ℚ}

theorem eq_roundTo (h : Rounded precision z q) : q = roundTo precision z := by
  by_cases hz : z = 0
  · rw [h.zero hz, hz, roundTo_zero]
  · obtain ⟨e, hlo, hhi, hq⟩ := h.nearest hz
    rw [hq, roundTo, log_eq_of_bounds hlo hhi, mul_comm]

theorem unique (h : Rounded precision z q) (h' : Rounded precision z q') : q = q' :=
  h.eq_roundTo.trans h'.eq_roundTo.symm

end Rounded

namespace Decimal
variable {precision : ℕ} {a b : Decimal}

theorem apply_div_eq_error_iff {x : EvalError} :
    apply .div precision a b = .error x ↔ x = .divisionByZero ∧ b.toRat = 0 := by
  rw [toRat_eq_zero_iff]
  by_cases hb : b.digits = 0
  · simp [apply, hb, eq_comm]
  · simp [apply, hb]

theorem apply_div_of_ne_zero (a : Decimal) (hp : 0 < precision) (hb : b.toRat ≠ 0)
    (hcount : precision + 1 + b.digitCount < 2 ^ 32) :
    ∃ q, apply .div precision a b = .ok q ∧
      Rounded precision (a.toRat / b.toRat) q.toRat := by
  have hdigits : b.digits ≠ 0 := mt (toRat_eq_zero_iff b).2 hb
  refine ⟨divide precision a b, by simp [apply, hdigits], ?_⟩
  rw [toRat_divide hp hdigits fun _ => quotientShift_lt a hcount]
  exact rounded_roundTo ..

end Decimal

/-- The zeros that are written behind a dividend are counted with 32 bits; the bound leaves
room for as many as there can be. -/
theorem division_rounded_once {precision : ℕ} (hp : 0 < precision) (a b : Decimal)
    (hcount : precision + 1 + b.digitCount < 2 ^ 32) :
    (∀ x, Decimal.apply .div precision a b = .error x ↔ x = .divisionByZero ∧ b.toRat = 0) ∧
      (b.toRat ≠ 0 → ∃ q, Decimal.apply .div precision a b = .ok q ∧
        Rounded precision (a.toRat / b.toRat) q.toRat ∧
        ∀ a' b' : Decimal, a'.toRat = a.toRat → b'.toRat = b.toRat →
          precision + 1 + b'.digitCount < 2 ^ 32 →
          ∃ q', Decimal.apply .div precision a' b' = .ok q' ∧ q'.toRat = q.toRat) := by
  refine ⟨fun x => Decimal.apply_div_eq_error_iff, fun hb => ?_⟩
  obtain ⟨q, hq, hround⟩ := Decimal.apply_div_of_ne_zero a hp hb hcount
  refine ⟨q, hq, hround, fun a' b' ha hb' hcount' => ?_⟩
  rw [← hb'] at hb
  obtain ⟨q', hq', hround'⟩ := Decimal.apply_div_of_ne_zero a' hp hb hcount'
  rw [ha, hb'] at hround'
  exact ⟨q', hq', hround'.unique hround⟩

/-- To two digits, 1.0000001 by 8.0 is just above the half between 0.12 and 0.13. The dividend
has so many digits that no zeros are written behind it. -/
theorem division_rounded_once_aboveHalf :
    let a : Decimal := ⟨10000001, 7⟩
    let b : Decimal := ⟨80, 1⟩
    0 < 2 ∧ 2 + 1 + b.digitCount < 2 ^ 32 ∧ b.toRat ≠ 0 ∧
      Decimal.apply .div 2 a b = .ok ⟨13, 2⟩ ∧
      Rounded 2 (a.toRat / b.toRat) (⟨13, 2⟩ : Decimal).toRat := by
  intro a b
  have hcount : 2 + 1 + b.digitCount < 2 ^ 32 := by decide +kernel
  have hb : b.toRat ≠ 0 := by simp [b, Decimal.toRat_eq_zero_iff]
  have hresult : Decimal.apply .div 2 a b = .ok ⟨13, 2⟩ := by decide +kernel
  obtain ⟨q, hq, hround, -⟩ := (division_rounded_once (by decide) a b hcount).2 hb
  rw [hresult] at hq
  cases hq
  exact ⟨by decide, hcount, hb, hresult, hround⟩

end AdaptiveCalc
