import AdaptiveCalc.Fast
import Mathlib.Data.Rat.Cast.Lemmas
import Mathlib.Tactic.FieldSimp
import Mathlib.Tactic.NormNum
import Mathlib.Tactic.Ring

/-!
# Exact results of 64 bits

Beside the arithmetic on 64-bit integers stands the exact one, on rational numbers. An
operation succeeds on integers exactly where its exact result is an integer of 64 bits, and
the way in which it fails tells which of the three other cases it met: there is no result, it
is a fraction, or it is an integer too wide. Main statement: `fast_exact_and_complete`.
-/
namespace AdaptiveCalc

/-- The exact result; a division by zero has none. -/
def Operator.exactResult? : Operator → ℚ → ℚ → Option ℚ
  | .add, x, y => some (x + y)
  | .sub, x, y => some (x - y)
  | .mul, x, y => some (x * y)
  | .div, x, y => if y = 0 then none else some (x / y)

namespace Fast

theorem toInt_eq_zero_iff {a : Int64} : a.toInt = 0 ↔ a = 0 :=
  ⟨fun h => Int64.toInt_inj.1 h, fun h => by rw [h]; rfl⟩

theorem narrow_eq_ok_iff {z : ℤ} {n : Int64} : narrow z = .ok n ↔ n.toInt = z := by
  constructor
  · exact toInt_of_narrow
  · rintro rfl
    exact narrow_toInt n

theorem narrow_eq_error_iff {z : ℤ} {f : Failure} :
    narrow z = .error f ↔ f = .overflow ∧ ¬Fits z := by
  unfold narrow
  split_ifs with hz <;> simp [hz, eq_comm]

theorem exists_narrow_iff {z : ℤ} : (∃ n, narrow z = .ok n) ↔ Fits z := by
  constructor
  · rintro ⟨n, hn⟩
    rw [← toInt_of_narrow hn]
    exact fits_toInt n
  · intro hz
    exact ⟨_, if_pos hz⟩

section
variable {a b : Int64} {z : ℤ}

theorem div_of_eq_mul (hb : b ≠ 0) (h : a.toInt = z * b.toInt) : div a b = narrow z := by
  have hb' : b.toInt ≠ 0 := mt toInt_eq_zero_iff.1 hb
  have hmod : a.toInt.tmod b.toInt = 0 := by rw [h, Int.mul_tmod_left]
  have hquot : a.toInt.tdiv b.toInt = z := by rw [h, Int.mul_tdiv_cancel _ hb']
  simp [div, hb, hmod, hquot]

theorem div_of_not_dvd (h : ¬b.toInt ∣ a.toInt) (hb : b ≠ 0) :
    div a b = .error .inexactQuotient := by
  have hmod : a.toInt.tmod b.toInt ≠ 0 := mt Int.dvd_of_tmod_eq_zero h
  simp [div, hb, hmod]

end

/-- What an operation answers, beside the exact result: a whole number is narrowed, and
only a division has another result than a whole number. -/
inductive Answers (op : Operator) (a b : Int64) : Option ℚ → Except Failure Int64 → Prop
  | whole (z : ℤ) (h : op = .div → b ≠ 0 ∧ a.toInt = z * b.toInt) :
      Answers op a b (some z) (narrow z)
  | byZero (hop : op = .div) (hb : b = 0) : Answers op a b none (.error .divideByZero)
  | fraction (q : ℚ) (hq : ∀ z : ℤ, q ≠ z) (hop : op = .div) (hb : b ≠ 0)
      (hdvd : ¬b.toInt ∣ a.toInt) : Answers op a b (some q) (.error .inexactQuotient)

theorem div_answers (a b : Int64) :
    Answers .div a b (Operator.exactResult? .div a.toInt b.toInt) (div a b) := by
  by_cases hb : b = 0
  · subst hb
    exact .byZero rfl rfl
  have hb' : (b.toInt : ℚ) ≠ 0 := Int.cast_ne_zero.2 (mt toInt_eq_zero_iff.1 hb)
  rw [Operator.exactResult?, if_neg hb']
  by_cases hdvd : b.toInt ∣ a.toInt
  · obtain ⟨z, hz⟩ := hdvd
    rw [Int.mul_comm] at hz
    have hquot : (a.toInt : ℚ) / b.toInt = z := by
      rw [div_eq_iff hb', hz]
      push_cast
      rfl
    rw [hquot, div_of_eq_mul hb hz]
    exact .whole z fun _ => ⟨hb, hz⟩
  · rw [div_of_not_dvd hdvd hb]
    refine .fraction _ (fun z hz => hdvd ⟨z, ?_⟩) rfl hb hdvd
    rw [div_eq_iff hb'] at hz
    rw [Int.mul_comm]
    exact_mod_cast hz

theorem apply_answers (op : Operator) (a b : Int64) :
    Answers op a b (op.exactResult? a.toInt b.toInt) (apply op a b) := by
  cases op with
  | div => exact div_answers a b
  | add =>
    have h : Answers .add a b _ (add a b) := .whole (a.toInt + b.toInt) nofun
    rwa [Int.cast_add] at h
  | sub =>
    have h : Answers .sub a b _ (sub a b) := .whole (a.toInt - b.toInt) nofun
    rwa [Int.cast_sub] at h
  | mul =>
    have h : Answers .mul a b _ (mul a b) := .whole (a.toInt * b.toInt) nofun
    rwa [Int.cast_mul] at h

namespace Answers
variable {op : Operator} {a b n : Int64} {x : Option ℚ} {r : Except Failure Int64}

theorem ok_iff (h : Answers op a b x r) : r = .ok n ↔ x = some (n.toInt : ℚ) := by
  cases h with
  | whole z h => rw [narrow_eq_ok_iff, Option.some.injEq, Int.cast_inj, eq_comm]
  | byZero => simp
  | fraction q hq => simp [hq]

theorem exists_ok_iff (h : Answers op a b x r) :
    (∃ n, r = .ok n) ↔ ∃ z : ℤ, x = some (z : ℚ) ∧ Fits z := by
  cases h with
  | whole z h => simp [exists_narrow_iff]
  | byZero => simp
  | fraction q hq => simp [hq]

theorem overflow_iff (h : Answers op a b x r) :
    r = .error .overflow ↔ ∃ z : ℤ, x = some (z : ℚ) ∧ ¬Fits z := by
  cases h with
  | whole z h => simp [narrow_eq_error_iff]
  | byZero => simp
  | fraction q hq => simp [hq]

theorem divideByZero_iff (h : Answers op a b x r) :
    r = .error .divideByZero ↔ op = .div ∧ b = 0 := by
  cases h with
  | whole z h =>
    rw [narrow_eq_error_iff]
    constructor
    · rintro ⟨⟨⟩, -⟩
    · rintro ⟨hop, hb⟩
      exact absurd hb (h hop).1
  | byZero hop hb => simp [hop, hb]
  | fraction q hq hop hb => simp [hb]

theorem inexactQuotient_iff (h : Answers op a b x r) :
    r = .error .inexactQuotient ↔ op = .div ∧ b ≠ 0 ∧ ¬b.toInt ∣ a.toInt := by
  cases h with
  | whole z h =>
    rw [narrow_eq_error_iff]
    constructor
    · rintro ⟨⟨⟩, -⟩
    · rintro ⟨hop, -, hdvd⟩
      exact absurd (Dvd.intro_left z (h hop).2.symm) hdvd
  | byZero hop hb => simp [hb]
  | fraction q hq hop hb hdvd => simp [hop, hb, hdvd]

theorem div_ok_iff (h : Answers .div a b x r) :
    r = .ok n ↔ b ≠ 0 ∧ a.toInt = n.toInt * b.toInt := by
  cases h with
  | whole z h =>
    obtain ⟨hb, hz⟩ := h rfl
    have hb' : b.toInt ≠ 0 := mt toInt_eq_zero_iff.1 hb
    rw [narrow_eq_ok_iff, and_iff_right hb, hz, mul_left_inj' hb', eq_comm]
  | byZero hop hb => simp [hb]
  | fraction q hq hop hb hdvd =>
    simp only [reduceCtorEq, false_iff, not_and]
    exact fun _ hn => hdvd (Dvd.intro_left _ hn.symm)

theorem exists_mul_of_overflow (h : Answers .div a b x r) (hr : r = .error .overflow) :
    b ≠ 0 ∧ ∃ z : ℤ, a.toInt = z * b.toInt ∧ ¬Fits z := by
  cases h with
  | whole z h => exact ⟨(h rfl).1, z, (h rfl).2, (narrow_eq_error_iff.1 hr).2⟩
  | byZero => cases hr
  | fraction => cases hr

end Answers

/-- An integer quotient is the quotient of the numbers. -/
theorem toInt_of_div {a b n : Int64} (h : div a b = .ok n) :
    (b.toInt : ℚ) ≠ 0 ∧ (n.toInt : ℚ) = a.toInt / b.toInt := by
  obtain ⟨hb, hmul⟩ := (div_answers a b).div_ok_iff.1 h
  have hb' : (b.toInt : ℚ) ≠ 0 := Int.cast_ne_zero.2 (mt toInt_eq_zero_iff.1 hb)
  refine ⟨hb', ?_⟩
  rw [eq_div_iff hb']
  exact_mod_cast hmul.symm

/-- Of the whole quotients of two integers of 64 bits, only one has more bits, for a quotient is
no larger than its dividend. -/
theorem div_overflow_iff {a b : Int64} :
    div a b = .error .overflow ↔ a = Int64.minValue ∧ b = -1 := by
  constructor
  · intro h
    obtain ⟨hb, z, hz, hwide⟩ := (div_answers a b).exists_mul_of_overflow h
    have hb' : b.toInt ≠ 0 := mt toInt_eq_zero_iff.1 hb
    obtain ⟨halo, hahi⟩ := fits_toInt a
    have habs : z.natAbs * b.toInt.natAbs = a.toInt.natAbs := by rw [hz, Int.natAbs_mul]
    have hle : z.natAbs ≤ a.toInt.natAbs :=
      habs ▸ Nat.le_mul_of_pos_right _ (Int.natAbs_pos.2 hb')
    have hz₁ : z = 2 ^ (63 : ℕ) := by
      unfold Fits at hwide
      omega
    have ha : a.toInt = -2 ^ (63 : ℕ) := by
      rw [hz₁] at hz hle
      omega
    have hb₁ : b.toInt = -1 := by
      rw [hz₁, ha] at hz
      omega
    exact ⟨Int64.toInt_inj.1 ha, Int64.toInt_inj.1 hb₁⟩
  · rintro ⟨rfl, rfl⟩
    decide

theorem div_ok_iff_sign {a b n : Int64} : div a b = .ok n ↔
    b ≠ 0 ∧ n.toInt.natAbs * b.toInt.natAbs = a.toInt.natAbs ∧
      n.toInt.sign = a.toInt.sign * b.toInt.sign := by
  rw [(div_answers a b).div_ok_iff]
  refine and_congr_right fun hb => ?_
  have hb' : b.toInt ≠ 0 := mt toInt_eq_zero_iff.1 hb
  have hsign : b.toInt.sign * b.toInt.sign = 1 := by
    rw [← Int.sign_mul, Int.sign_eq_one_of_pos (mul_self_pos.2 hb')]
  constructor
  · intro h
    rw [h, Int.natAbs_mul, Int.sign_mul, mul_assoc, hsign, mul_one]
    exact ⟨rfl, rfl⟩
  · rintro ⟨habs, hn⟩
    calc a.toInt
        = a.toInt.sign * a.toInt.natAbs := (Int.sign_mul_natAbs _).symm
      _ = a.toInt.sign * (n.toInt.natAbs * b.toInt.natAbs) := by rw [← habs]; push_cast; rfl
      _ = a.toInt.sign * (b.toInt.sign * b.toInt.sign) * (n.toInt.natAbs * b.toInt.natAbs) := by
        rw [hsign, mul_one]
      _ = n.toInt.sign * n.toInt.natAbs * (b.toInt.sign * b.toInt.natAbs) := by rw [hn]; ring
      _ = n.toInt * b.toInt := by rw [Int.sign_mul_natAbs, Int.sign_mul_natAbs]

end Fast

/-- An operation gives an integer exactly where the exact result is one of 64 bits, and then
it is that integer. Each failure tells one of the other cases: a division by zero, a quotient
that is a fraction, and an integer of more bits, which among quotients is only that of the
smallest integer by minus one. -/
theorem fast_exact_and_complete (op : Operator) (a b : Int64) :
    (∀ n, Fast.apply op a b = .ok n ↔ op.exactResult? a.toInt b.toInt = some (n.toInt : ℚ)) ∧
    ((∃ n, Fast.apply op a b = .ok n) ↔
      ∃ z : ℤ, op.exactResult? a.toInt b.toInt = some (z : ℚ) ∧ Fast.Fits z) ∧
    (Fast.apply op a b = .error .divideByZero ↔ op = .div ∧ b = 0) ∧
    (Fast.apply op a b = .error .inexactQuotient ↔
      op = .div ∧ b ≠ 0 ∧ ¬b.toInt ∣ a.toInt) ∧
    (Fast.apply op a b = .error .overflow ↔
      ∃ z : ℤ, op.exactResult? a.toInt b.toInt = some (z : ℚ) ∧ ¬Fast.Fits z) ∧
    (Fast.apply .div a b = .error .overflow ↔ a = Int64.minValue ∧ b = -1) ∧
    (∀ n, Fast.apply .div a b = .ok n ↔
      b ≠ 0 ∧ n.toInt.natAbs * b.toInt.natAbs = a.toInt.natAbs ∧
        n.toInt.sign = a.toInt.sign * b.toInt.sign) := by
  have h := Fast.apply_answers op a b
  exact ⟨fun n => h.ok_iff, h.exists_ok_iff, h.divideByZero_iff, h.inexactQuotient_iff,
    h.overflow_iff, Fast.div_overflow_iff, fun n => Fast.div_ok_iff_sign⟩

end AdaptiveCalc
