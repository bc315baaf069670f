import AdaptiveCalc.Proofs.Decimal.Number
import Mathlib.Data.Int.Log
import Mathlib.Data.Rat.Floor

/-!
# Rounding rational numbers

The rule that division follows, said of rational numbers alone: keep a number of
significant digits and take the nearer neighbour, of two equally near ones the even
one. Digits with a last digit `1` in the place of everything that a division leaves
over are rounded like the exact quotient. Main statements: `roundTo_eq_self` and
`nearestEven_div_of_sticky`.
-/
namespace AdaptiveCalc

/-- The nearest whole number, and of two the even one. -/
def nearestEven (q : ℚ) : ℤ :=
  if 1 / 2 < q - ⌊q⌋ ∨ (q - ⌊q⌋ = 1 / 2 ∧ ⌊q⌋ % 2 = 1) then ⌊q⌋ + 1 else ⌊q⌋

/-- `q` to `precision` significant digits, a half to the even neighbour. The unit is
that of the last digit kept. -/
def roundTo (precision : ℕ) (q : ℚ) : ℚ :=
  let unit := (10 : ℚ) ^ (Int.log 10 |q| - precision + 1)
  nearestEven (q / unit) * unit

theorem nearestEven_unique {q : ℚ} {n : ℤ} (h : |q - n| ≤ 1 / 2)
    (heven : |q - n| = 1 / 2 → n % 2 = 0) : nearestEven q = n := by
  have hlo := Int.floor_le q
  have hhi := Int.lt_floor_add_one q
  obtain ⟨h₁, h₂⟩ := abs_le.1 h
  have hle : ⌊q⌋ ≤ n := by
    have : (⌊q⌋ : ℚ) < n + 1 := by linarith
    exact Int.lt_add_one_iff.1 (by exact_mod_cast this)
  have hlt : n < ⌊q⌋ + 2 := by
    have : (n : ℚ) < ⌊q⌋ + 2 := by linarith
    exact_mod_cast this
  obtain hn | hn : n = ⌊q⌋ ∨ n = ⌊q⌋ + 1 := by omega
  · have hz : |q - n| = q - ⌊q⌋ := by rw [hn]; exact abs_of_nonneg (by linarith)
    rw [nearestEven, if_neg, hn]
    rintro (hgt | ⟨htie, hodd⟩)
    · linarith
    · have := heven (hz.trans htie)
      omega
  · have hz : |q - n| = 1 - (q - ⌊q⌋) := by
      rw [hn]
      push_cast
      rw [abs_of_nonpos (by linarith)]
      ring
    rw [nearestEven, if_pos, hn]
    rcases (show 1 / 2 ≤ q - ⌊q⌋ by linarith).lt_or_eq with hgt | htie
    · exact Or.inl hgt
    · have := heven (by rw [hz, ← htie]; norm_num)
      exact Or.inr ⟨htie.symm, by omega⟩

theorem abs_sub_nearestEven (q : ℚ) : |q - nearestEven q| ≤ 1 / 2 ∧
    (|q - nearestEven q| = 1 / 2 → nearestEven q % 2 = 0) := by
  have hlo := Int.floor_le q
  have hhi := Int.lt_floor_add_one q
  unfold nearestEven
  split_ifs with h
  · push_cast
    rw [abs_of_nonpos (by linarith)]
    rcases h with h | ⟨h, hodd⟩
    · exact ⟨by linarith, fun he => by linarith⟩
    · exact ⟨by linarith, fun _ => by omega⟩
  · rw [abs_of_nonneg (by linarith)]
    rw [not_or, not_and, not_lt] at h
    exact ⟨h.1, fun he => by have := h.2 he; omega⟩

@[simp] theorem nearestEven_intCast (n : ℤ) : nearestEven n = n :=
  nearestEven_unique (by norm_num) (by norm_num)

theorem nearestEven_neg (q : ℚ) : nearestEven (-q) = -nearestEven q := by
  obtain ⟨h, heven⟩ := abs_sub_nearestEven q
  have habs : |-q - (-nearestEven q : ℤ)| = |q - nearestEven q| := by
    push_cast
    rw [← abs_neg]
    ring_nf
  refine nearestEven_unique (habs.trans_le h) fun he => ?_
  have := heven (habs.symm.trans he)
  omega

/-- The nearest multiple of a unit, found from the distance to it. -/
theorem nearestEven_div_unique {z unit : ℚ} (hu : 0 < unit) {n : ℤ}
    (h : 2 * |z - n * unit| ≤ unit) (heven : 2 * |z - n * unit| = unit → n % 2 = 0) :
    nearestEven (z / unit) = n := by
  have habs : |z / unit - n| = |z - n * unit| / unit := by
    rw [← abs_of_pos hu, ← abs_div, abs_of_pos hu, sub_div, mul_div_cancel_right₀ _ hu.ne']
  refine nearestEven_unique ?_ fun he => heven ?_
  · rw [habs, div_le_iff₀ hu]
    linarith
  · rw [habs, div_eq_iff hu.ne'] at he
    linarith

theorem two_mul_abs_sub_roundHalfEven (n : ℕ) {unit : ℕ} (hu : 0 < unit) :
    2 * |(n : ℤ) - roundHalfEven n unit * unit| ≤ unit ∧
      (2 * |(n : ℤ) - roundHalfEven n unit * unit| = unit → roundHalfEven n unit % 2 = 0) := by
  have hmod := Nat.mod_lt n hu
  have hn : (n : ℤ) = (n / unit : ℕ) * unit + (n % unit : ℕ) := by
    exact_mod_cast (Nat.div_add_mod' n unit).symm
  simp only [roundHalfEven]
  generalize n / unit = whole at *
  generalize n % unit = rest at *
  split_ifs with h
  · have hup : (n : ℤ) - (whole + 1 : ℕ) * unit = rest - unit := by
      rw [hn]
      push_cast
      ring
    rw [hup, abs_of_nonpos (by omega)]
    omega
  · have hdown : (n : ℤ) - whole * unit = rest := by
      rw [hn]
      ring
    rw [hdown, abs_of_nonneg (by omega)]
    omega

theorem nearestEven_div (n : ℕ) {unit : ℕ} (hu : 0 < unit) :
    nearestEven ((n : ℚ) / unit) = roundHalfEven n unit := by
  obtain ⟨h, heven⟩ := two_mul_abs_sub_roundHalfEven n hu
  apply nearestEven_div_unique (by exact_mod_cast hu)
  · exact_mod_cast h
  · intro he
    have := heven (by exact_mod_cast he)
    omega

/-- A last digit `1` may stand for any part of its ten but the ends: with the rounding
digit before it, it is never part of a half. -/
theorem nearestEven_div_of_sticky {z : ℚ} {n k : ℕ} (hk : 2 ≤ k) (hn : n % 10 = 1)
    (hlo : (n : ℚ) - 1 < z) (hhi : z < n + 9) :
    nearestEven (z / 10 ^ k) = roundHalfEven n (10 ^ k) := by
  obtain ⟨j, rfl⟩ : ∃ j, k = j + 2 := ⟨k - 2, by omega⟩
  obtain ⟨h, -⟩ := two_mul_abs_sub_roundHalfEven n (show 0 < 10 ^ (j + 2) by positivity)
  have hpow : 10 ^ (j + 2) = 2 * (5 * 10 ^ j * 10) := by ring
  have hu : (0 : ℚ) < 10 ^ (j + 2) := by positivity
  generalize roundHalfEven n (10 ^ (j + 2)) = m at h ⊢
  generalize 5 * 10 ^ j = half at hpow
  have hpow' : (10 : ℚ) ^ (j + 2) = 2 * (half * 10) := by exact_mod_cast hpow
  obtain ⟨c, hc⟩ : ∃ c : ℤ, (m : ℤ) * (10 ^ (j + 2) : ℕ) = c * 10 :=
    ⟨m * (2 * half), by rw [hpow]; push_cast; ring⟩
  rw [hc, hpow] at h
  obtain ⟨h₁, h₂⟩ := abs_le.1 (show |(n : ℤ) - c * 10| ≤ half * 10 by omega)
  have hge : (c * 10 + 1 - half * 10 : ℚ) ≤ n := by
    exact_mod_cast (by omega : c * 10 + 1 - half * 10 ≤ (n : ℤ))
  have hle : (n + 9 : ℚ) ≤ c * 10 + half * 10 := by
    exact_mod_cast (by omega : (n + 9 : ℤ) ≤ c * 10 + half * 10)
  have hc' : ((m : ℤ) : ℚ) * 10 ^ (j + 2) = c * 10 := by exact_mod_cast hc
  have habs : |z - (m : ℤ) * 10 ^ (j + 2)| < half * 10 := by
    rw [hc', abs_lt]
    constructor <;> linarith
  exact nearestEven_div_unique hu (by linarith) (fun he => by linarith)

theorem log_eq_of_bounds {z : ℚ} {e : ℤ} (hlo : (10 : ℚ) ^ e ≤ z) (hhi : z < 10 ^ (e + 1)) :
    Int.log 10 z = e := by
  have hz : 0 < z := (Decimal.ten_zpow_pos e).trans_le hlo
  have h₁ := (Int.zpow_le_iff_le_log (b := 10) (by norm_num) hz).1 (by exact_mod_cast hlo)
  have h₂ := (Int.lt_zpow_iff_log_lt (b := 10) (by norm_num) hz).1 (by exact_mod_cast hhi)
  omega

theorem log_mul_zpow {z : ℚ} (hz : 0 < z) (t : ℤ) :
    Int.log 10 (z * 10 ^ t) = Int.log 10 z + t := by
  have hlo := Int.zpow_log_le_self (b := 10) (by norm_num) hz
  have hhi := Int.lt_zpow_succ_log_self (b := 10) (by norm_num) z
  push_cast at hlo hhi
  have hp := Decimal.ten_zpow_pos t
  apply log_eq_of_bounds
  · rw [zpow_add₀ (by norm_num)]
    exact mul_le_mul_of_nonneg_right hlo hp.le
  · rw [add_right_comm, zpow_add₀ (by norm_num)]
    exact mul_lt_mul_of_pos_right hhi hp

@[simp] theorem roundTo_zero (p : ℕ) : roundTo p 0 = 0 := by
  have : nearestEven 0 = 0 := by exact_mod_cast nearestEven_intCast 0
  simp [roundTo, this]

theorem roundTo_neg (p : ℕ) (q : ℚ) : roundTo p (-q) = -roundTo p q := by
  simp only [roundTo, abs_neg, neg_div, nearestEven_neg]
  push_cast
  ring

/-- Rounding looks at digits, not at where the point stands. -/
theorem roundTo_mul_zpow (p : ℕ) (q : ℚ) (t : ℤ) :
    roundTo p (q * 10 ^ t) = roundTo p q * 10 ^ t := by
  by_cases hq : q = 0
  · simp [hq]
  have hp := Decimal.ten_zpow_pos t
  have hlog : Int.log 10 |q * 10 ^ t| = Int.log 10 |q| + t := by
    rw [abs_mul, abs_of_pos hp, log_mul_zpow (abs_pos.2 hq)]
  have hunit : (10 : ℚ) ^ (Int.log 10 |q * 10 ^ t| - p + 1) =
      10 ^ (Int.log 10 |q| - p + 1) * 10 ^ t := by
    rw [hlog, ← zpow_add₀ (by norm_num)]
    congr 1
    ring
  simp only [roundTo, hunit, mul_div_mul_right _ _ hp.ne', mul_assoc]

theorem roundTo_of_log {z : ℚ} {p k : ℕ} (hz : 0 < z)
    (hlog : Int.log 10 z = (p + k : ℕ) - 1) :
    roundTo p z = nearestEven (z / 10 ^ k) * 10 ^ k := by
  have hunit : (10 : ℚ) ^ (Int.log 10 |z| - p + 1) = 10 ^ k := by
    rw [abs_of_pos hz, hlog, ← zpow_natCast]
    congr 1
    push_cast
    ring
  simp only [roundTo, hunit]

/-- Nothing is lost of a number that has no more digits than are kept. -/
theorem roundTo_eq_self {p : ℕ} {m : ℤ} (h : |m| < 10 ^ p) (t : ℤ) :
    roundTo p (m * 10 ^ t) = m * 10 ^ t := by
  rw [roundTo_mul_zpow]
  congr 1
  by_cases hm : m = 0
  · simp [hm]
  have habs : (0 : ℚ) < |(m : ℚ)| := abs_pos.2 (by exact_mod_cast hm)
  have hlog : Int.log 10 |(m : ℚ)| < p := by
    apply (Int.lt_zpow_iff_log_lt (b := 10) (by norm_num) habs).1
    push_cast
    rw [zpow_natCast]
    exact_mod_cast h
  obtain ⟨k, hk⟩ := Int.le.dest (show Int.log 10 |(m : ℚ)| - p + 1 ≤ 0 by omega)
  have hunit : (10 : ℚ) ^ (Int.log 10 |(m : ℚ)| - p + 1) * 10 ^ k = 1 := by
    rw [← zpow_natCast, ← zpow_add₀ (by norm_num), hk, zpow_zero]
  have hdiv : (m : ℚ) / 10 ^ (Int.log 10 |(m : ℚ)| - p + 1) = (m * 10 ^ k : ℤ) := by
    rw [div_eq_iff (Decimal.ten_zpow_pos _).ne']
    push_cast
    rw [mul_assoc, mul_comm (10 ^ k), hunit, mul_one]
  simp only [roundTo, hdiv, nearestEven_intCast]
  push_cast
  rw [mul_assoc, mul_comm (10 ^ k), hunit, mul_one]

end AdaptiveCalc
