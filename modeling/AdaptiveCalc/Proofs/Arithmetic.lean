import AdaptiveCalc.Proofs.Decimal.Number
import AdaptiveCalc.Proofs.Evaluation.Depth
import AdaptiveCalc.Proofs.Evaluation.Past

/-!
# The ways to compute

Two values are added, subtracted, multiplied or divided by an operation of their own, by the
one that takes the operator, or by a site of a tree, and a value is negated by itself or by a
tree. All of these give the same: they keep to integers in the same cases and otherwise they
compute the same number. Main statement: `arithmetic_agrees`.
-/
namespace AdaptiveCalc
namespace Value

theorem same_iff {v w : Value} : v.Same w ↔ v.isFast = w.isFast ∧ v.toRat = w.toRat := by
  cases v with
  | fast a =>
    cases w with
    | fast b => simp [Same, Int64.toInt_inj]
    | precise e => simp [Same]
  | precise d =>
    cases w with
    | fast b => simp [Same]
    | precise e => simp [Same, Decimal.same_iff_toRat_eq]

/-- An operation that cannot fail on decimals, in the place of the one that takes its operator. -/
theorem apply_eq_widening {op : Operator} {onFast : Int64 → Int64 → Except Fast.Failure Int64}
    {onDecimal : Decimal → Decimal → Decimal} {precision : ℕ}
    (hfast : ∀ a b, Fast.apply op a b = onFast a b)
    (hdecimal : ∀ d e, Decimal.apply op precision d e = .ok (onDecimal d e)) (v w : Value) :
    apply op precision v w = .ok (widening onFast onDecimal v w) := by
  have hprecise : applyPrecise op precision v w =
      .ok (.precise (onDecimal v.toDecimal w.toDecimal)) := by
    rw [applyPrecise, hdecimal]
    rfl
  cases v with
  | precise d => exact hprecise
  | fast a =>
    cases w with
    | precise e => exact hprecise
    | fast b =>
      simp only [apply, widening, hfast]
      cases onFast a b with
      | ok n => rfl
      | error failure => exact hprecise

section
variable (precision : ℕ) (v w : Value)

theorem apply_add : apply .add precision v w = .ok (v.add w) :=
  apply_eq_widening (fun _ _ => rfl) (fun _ _ => rfl) v w

theorem apply_sub : apply .sub precision v w = .ok (v.sub w) :=
  apply_eq_widening (fun _ _ => rfl) (fun _ _ => rfl) v w

theorem apply_mul : apply .mul precision v w = .ok (v.mul w) :=
  apply_eq_widening (fun _ _ => rfl) (fun _ _ => rfl) v w

end

theorem toRat_negate (v : Value) : v.negate.toRat = -v.toRat := by
  rw [toRat, toDecimal_negate, Decimal.toRat_neg, toRat]

/-- A difference from zero is an integer in the same cases as the negation. The decimals may
differ in their scales, where the number is zero. -/
theorem same_sub_negate (v : Value) : ((fast 0).sub v).Same v.negate := by
  cases v with
  | precise d =>
    rw [same_iff]
    simp [sub, widening, negate]
  | fast n =>
    have hzero : Fast.sub 0 n = Fast.negate n := by simp [Fast.sub, Fast.negate]
    rw [same_iff]
    simp only [sub, widening, negate, hzero]
    cases Fast.negate n with
    | ok m => exact ⟨rfl, rfl⟩
    | error failure => simp

end Value

namespace Interpreter

/-- The interpreter within a node, one level further down. -/
def within (i : Interpreter) : Interpreter := { i with depth := i.depth + 1 }

/-- The operands of a node that evaluate to two values, the left one first. -/
structure OperandsGive (i : Interpreter) (l r : Node) (v w : Value) : Prop where
  left : (i.within.eval l).result = .ok v
  right : ((i.within.eval l).interpreter.eval r).result = .ok w

variable {i : Interpreter} {l r e : Node} {v w : Value}

theorem depth_lt_of_within (h : (i.within.eval e).result = .ok v) :
    i.depth < i.settings.maxDepth := by
  have hheight : i.depth + 1 + e.height ≤ i.settings.maxDepth :=
    (i.within.depthLimited_eval e).ok v h
  omega

theorem result_eval_literal (h : i.depth < i.settings.maxDepth) :
    (i.eval (.literal v)).result = .ok v := by
  have hliteral : Evaluates i.settings (.literal v) i.state ⟨.ok v, .literal v, i.state⟩ [] := by
    cases v with
    | fast n => exact .fast h
    | precise d => exact .precise h
  exact congrArg Outcome.result ((i.evaluates _).unique hliteral).1

theorem operandsGive_literal (v w : Value) (h : i.depth + 2 ≤ i.settings.maxDepth) :
    i.OperandsGive (.literal v) (.literal w) v w := by
  have hdepth : (i.within.eval (.literal v)).interpreter.depth = i.depth + 1 :=
    (i.within.depthLimited_eval (.literal v)).depth
  have hright : (i.within.eval (.literal v)).interpreter.depth < i.settings.maxDepth := by
    rw [hdepth]
    exact h
  exact ⟨result_eval_literal h, result_eval_literal hright⟩

/-- A site gives what it makes of the values that its operands give. -/
theorem eval_binary_of_operands (op : Operator) (b : Bool) (h : i.OperandsGive l r v w) :
    (i.eval (.binary op b l r)).result =
      (applySite op i.settings.divisionPrecision b v w).result := by
  have hl := i.within.evaluates l
  rw [h.left] at hl
  have hr := (i.within.eval l).interpreter.evaluates r
  rw [h.right] at hr
  have hr' := hr.withPast (i.within.eval l).events.reverse
  have hsite : Evaluates i.settings (.binary op b l r) i.state _ _ :=
    .binary (depth_lt_of_within h.left) hl hr' rfl
  exact congrArg Outcome.result ((i.evaluates _).unique hsite).1

theorem eval_negate_of_operand (b : Bool) (h : (i.within.eval e).result = .ok v) :
    (i.eval (.negate b e)).result =
      (applySite .sub i.settings.divisionPrecision b (.fast 0) v).result := by
  have he := i.within.evaluates e
  rw [h] at he
  have hsite : Evaluates i.settings (.negate b e) i.state _ _ :=
    .negate (depth_lt_of_within h) he rfl
  exact congrArg Outcome.result ((i.evaluates _).unique hsite).1

end Interpreter

/-- The operations on two values give what the operator gives, of which only the division
depends on the precision or fails. A site that has not settled gives the same for the values
of its operands, and a negation that has not settled gives the difference from zero, which is
of the kind and number of the negated value. -/
theorem arithmetic_agrees (v w : Value) :
    (∀ precision, Value.apply .add precision v w = .ok (v.add w) ∧
      Value.apply .sub precision v w = .ok (v.sub w) ∧
      Value.apply .mul precision v w = .ok (v.mul w) ∧
      Value.apply .div precision v w = v.div precision w) ∧
    (∀ (i : Interpreter) (op : Operator) (l r : Node), i.OperandsGive l r v w →
      (i.eval (.binary op false l r)).result =
        Value.apply op i.settings.divisionPrecision v w) ∧
    (∀ (i : Interpreter) (e : Node), (i.within.eval e).result = .ok v →
      (i.eval (.negate false e)).result = .ok ((Value.fast 0).sub v)) ∧
    ((Value.fast 0).sub v).Same v.negate ∧ v.negate.toRat = -v.toRat := by
  refine ⟨?_, ?_, ?_, v.same_sub_negate, v.toRat_negate⟩
  · intro precision
    exact ⟨v.apply_add precision w, v.apply_sub precision w, v.apply_mul precision w, rfl⟩
  · intro i op l r h
    rw [Interpreter.eval_binary_of_operands op false h, result_applySite]
    rfl
  · intro i e h
    rw [Interpreter.eval_negate_of_operand false h, result_applySite]
    exact Value.apply_sub ..

/-- The smallest integer has no negation of 64 bits, whichever way it is computed. -/
theorem arithmetic_agrees_smallest :
    let i : Interpreter := {}
    let v : Value := .fast Int64.minValue
    let w : Value := .precise ⟨-250, 2⟩
    i.OperandsGive (.literal v) (.literal w) v w ∧
      (i.eval (.binary .div false (.literal v) (.literal w))).result =
        Value.apply .div i.settings.divisionPrecision v w ∧
      (i.within.eval (.literal v)).result = .ok v ∧
      (i.eval (.negate false (.literal v))).result = .ok ((Value.fast 0).sub v) ∧
      ((Value.fast 0).sub v).Same v.negate ∧ v.negate = .precise ⟨9223372036854775808, 0⟩ := by
  intro i v w
  have hoperands : i.OperandsGive (.literal v) (.literal w) v w :=
    Interpreter.operandsGive_literal v w (by decide)
  obtain ⟨-, hsite, hnegation, hsame, -⟩ := arithmetic_agrees v w
  exact ⟨hoperands, hsite i .div _ _ hoperands, hoperands.left, hnegation i _ hoperands.left,
    hsame, by decide +kernel⟩

end AdaptiveCalc
