import AdaptiveCalc.Proofs.Refinement

/-!
# When a settled bit shows

A site that has settled divides on decimals, and a division on decimals rounds. With 19
digits or more no integer of 64 bits is changed by that, so the number does not tell
whether the site has settled. With fewer digits it does: one more than a power of ten,
divided by one, loses its last digit at a settled site. Main statement:
`settled_bit_unobservable_iff`.
-/
namespace AdaptiveCalc

theorem log_ten_pow_add_one {p : ℕ} (hp : 0 < p) : Int.log 10 ((10 : ℚ) ^ p + 1) = p := by
  have hone : (1 : ℚ) < 10 ^ p := one_lt_pow₀ (by norm_num) hp.ne'
  apply log_eq_of_bounds
  · rw [zpow_natCast]
    linarith
  · rw [zpow_add_one₀ (by norm_num), zpow_natCast]
    linarith

theorem roundTo_ten_pow_add_one {p : ℕ} (hp : 0 < p) : roundTo p (10 ^ p + 1) = 10 ^ p := by
  obtain ⟨q, rfl⟩ : ∃ q, p = q + 1 := ⟨p - 1, by omega⟩
  have hnearest : nearestEven ((10 ^ (q + 1) + 1) / 10 ^ 1) = 10 ^ q := by
    have hdist : |(10 : ℚ) ^ (q + 1) + 1 - ((10 ^ q : ℤ) : ℚ) * 10 ^ 1| = 1 := by
      push_cast
      rw [pow_succ, show (10 : ℚ) ^ q * 10 + 1 - 10 ^ q * 10 ^ 1 = 1 by ring, abs_one]
    apply nearestEven_div_unique (by norm_num) <;> rw [hdist] <;> norm_num
  rw [roundTo_of_log (k := 1) (by positivity) (by rw [log_ten_pow_add_one hp]; push_cast; ring),
    hnearest]
  push_cast
  ring

namespace Value

theorem eq_of_text_fast_eq {a b : Int64} (ha : 0 ≤ a.toInt) (hb : 0 ≤ b.toInt)
    (h : (fast a).text = (fast b).text) : a = b := by
  have hdigits : Nat.toDigits 10 a.toInt.natAbs = Nat.toDigits 10 b.toInt.natAbs := by
    simpa [chars, integerChars, signChars, not_lt.2 ha, not_lt.2 hb] using
      String.ofList_injective h
  have habs : a.toInt.natAbs = b.toInt.natAbs := by
    calc a.toInt.natAbs
        = Nat.ofDigitChars 10 (Nat.toDigits 10 a.toInt.natAbs) 0 :=
          Nat.ofDigitChars_ten_toDigits.symm
      _ = Nat.ofDigitChars 10 (Nat.toDigits 10 b.toInt.natAbs) 0 := by rw [hdigits]
      _ = b.toInt.natAbs := Nat.ofDigitChars_ten_toDigits
  exact Int64.toInt_inj.1 (by omega)

end Value

theorem Decimal.digitCount_ofInt_toInt_le (n : Int64) : (ofInt n.toInt).digitCount ≤ 19 := by
  obtain ⟨hlo, hhi⟩ := Fast.fits_toInt n
  rw [digitCount, digits_ofInt, lengthOf_le_iff (by decide)]
  omega

/-- The zeros behind an integer dividend can be counted if the precision leaves room for
the digits of the divisor. -/
theorem Decimal.quotientShift_ofInt_lt {precision : ℕ} (h : precision + 21 < 2 ^ 32)
    (a b : Int64) : quotientShift precision (ofInt a.toInt) (ofInt b.toInt) < 2 ^ 32 := by
  have hb := digitCount_ofInt_toInt_le b
  exact quotientShift_lt _ (by omega)

namespace Fast

theorem exists_ten_pow {p : ℕ} (hp : p ≤ 18) :
    ∃ a b : Int64, a.toInt = 10 ^ p ∧ b.toInt = 10 ^ p + 1 := by
  have hle : (10 : ℤ) ^ p ≤ 10 ^ 18 := by exact_mod_cast Nat.pow_le_pow_right (by decide) hp
  have hpos : (0 : ℤ) < 10 ^ p := by positivity
  exact ⟨Int64.ofInt (10 ^ p), Int64.ofInt (10 ^ p + 1),
    Int64.toInt_ofInt_of_le (by omega) (by omega), Int64.toInt_ofInt_of_le (by omega) (by omega)⟩

theorem apply_div_one (a : Int64) : apply .div a 1 = .ok a := by
  simp [apply, div, show (1 : Int64).toInt = 1 from rfl]

end Fast

section
variable {settings : Settings} {a : Int64}

/-- A site that has settled loses the last digit of a number of one digit too many. -/
theorem exists_of_applySite_settled (hlow : settings.divisionPrecision ≤ 18)
    (ha : a.toInt = 10 ^ settings.divisionPrecision + 1) :
    ∃ v : Value, (applySite .div settings.divisionPrecision true (.fast a) (.fast 1)).result =
      .ok v ∧ v.toRat = 10 ^ settings.divisionPrecision := by
  have hplain : Except.ok (10 ^ settings.divisionPrecision) =
      (Value.applyPrecise .div settings.divisionPrecision (.fast a) (.fast 1)).map Value.toRat := by
    rw [← Plain.apply_eq_applyPrecise fun _ _ _ =>
      Decimal.quotientShift_ofInt_lt (by omega) a 1]
    simp [Plain.apply, Plain.rounding, show (1 : Int64).toInt = 1 from rfl, ha,
      roundTo_ten_pow_add_one settings.precision_pos]
  rw [result_applySite, if_pos rfl]
  cases hv : Value.applyPrecise .div settings.divisionPrecision (.fast a) (.fast 1) with
  | error e =>
    rw [hv] at hplain
    cases hplain
  | ok v =>
    rw [hv] at hplain
    exact ⟨v, rfl, (Except.ok.inj hplain).symm⟩

/-- A site that has not settled loses nothing. -/
theorem result_applySite_clear (a : Int64) :
    (applySite .div settings.divisionPrecision false (.fast a) (.fast 1)).result =
      .ok (.fast a) := by
  simp [applySite, Fast.apply_div_one]

end

namespace Interpreter
variable {i : Interpreter}

theorem eval_binary_of_leaves {l r : Node} {v w : Value} {t u : State} (op : Operator)
    (b : Bool) (hdepth : i.depth < i.settings.maxDepth)
    (hl : Evaluates i.settings l i.state.enter ⟨.ok v, l, t⟩ [])
    (hr : Evaluates i.settings r t ⟨.ok w, r, u⟩ []) :
    let a := applySite op i.settings.divisionPrecision b v w
    (i.eval (.binary op b l r)).result = a.result ∧
      (i.eval (.binary op b l r)).subject = .binary op a.settled l r := by
  have h : Evaluates i.settings (.binary op b l r) i.state _ _ := .binary hdepth hl hr rfl
  simp [eval, finish, h.eq_evaluate.1]

theorem result_eval_literals (op : Operator) (b : Bool) (x y : Int64)
    (hdepth : i.depth + 2 ≤ i.settings.maxDepth) :
    (i.eval (.binary op b (.fast x) (.fast y))).result =
      (applySite op i.settings.divisionPrecision b (.fast x) (.fast y)).result := by
  have hleaf : i.state.enter.depth < i.settings.maxDepth := hdepth
  exact (eval_binary_of_leaves op b (by omega) (.fast hleaf) (.fast hleaf)).1

theorem eval_literals_settled_eq (op : Operator) (x y : Int64)
    (hdepth : i.depth + 2 ≤ i.settings.maxDepth) (hhigh : 19 ≤ i.settings.divisionPrecision)
    (hcount : i.settings.divisionPrecision + 21 < 2 ^ 32) :
    (i.eval (.binary op true (.fast x) (.fast y))).result.map Value.toRat =
      (i.eval (.binary op false (.fast x) (.fast y))).result.map Value.toRat := by
  have hcounted (b : Bool) : (⟨[], op, .fast x, .fast y⟩ : Visit).Counted
      i.settings.divisionPrecision b := fun _ => Decimal.quotientShift_ofInt_lt hcount x y
  rw [result_eval_literals _ _ _ _ hdepth, result_eval_literals _ _ _ _ hdepth,
    ← Plain.apply_eq_applySite true (fun _ => hhigh) (hcounted true),
    ← Plain.apply_eq_applySite false (fun _ => hhigh) (hcounted false)]

theorem exists_eval_literals_settled_ne (hdepth : i.depth + 2 ≤ i.settings.maxDepth)
    (hlow : i.settings.divisionPrecision ≤ 18) :
    ∃ x y : Int64, (i.eval (.binary .div true (.fast x) (.fast y))).result.map Value.toRat ≠
      (i.eval (.binary .div false (.fast x) (.fast y))).result.map Value.toRat := by
  obtain ⟨-, a, -, ha⟩ := Fast.exists_ten_pow hlow
  obtain ⟨v, hv, hnumber⟩ := exists_of_applySite_settled hlow ha
  refine ⟨a, 1, fun hsame => ?_⟩
  rw [result_eval_literals _ _ _ _ hdepth, result_eval_literals _ _ _ _ hdepth, hv,
    result_applySite_clear] at hsame
  have hnumbers : v.toRat = (Value.fast a).toRat := Except.ok.inj hsame
  rw [hnumber, Value.toRat_fast, ha] at hnumbers
  push_cast at hnumbers
  linarith

end Interpreter

def Store.ofPair (x y : Int64) : Store := ⟨#[⟨"x", .fast x⟩, ⟨"y", .fast y⟩]⟩

def Node.quotient (settled : Bool) : Node := .binary .div settled (.read 0) (.read 1)

namespace Interpreter
variable {i : Interpreter}

theorem eval_quotient {x y : Int64} (b : Bool) (hstore : i.store = .ofPair x y)
    (hdepth : i.depth + 2 ≤ i.settings.maxDepth) :
    let a := applySite .div i.settings.divisionPrecision b (.fast x) (.fast y)
    (i.eval (.quotient b)).result = a.result ∧
      (i.eval (.quotient b)).subject = .quotient a.settled := by
  have hleaf : i.state.enter.depth < i.settings.maxDepth := hdepth
  have hx : i.state.store.read 0 = .ok (.fast x) := by rw [state, hstore]; rfl
  have hy : i.state.store.read 1 = .ok (.fast y) := by rw [state, hstore]; rfl
  exact eval_binary_of_leaves .div b (by omega) (.read hleaf hx) (.read hleaf hy)

/-- One third settles the quotient of two variables. What it gives for a power of ten and
one more, divided by one, has another text then. -/
theorem exists_text_eval_changes (hdepth : i.depth + 2 ≤ i.settings.maxDepth)
    (hlow : i.settings.divisionPrecision ≤ 18) :
    ∃ (n : Node) (s t : Store) (clear settled : String),
      ({ i with store := t }.eval n).text = .ok clear ∧
      ({ i with store := t }.eval ({ i with store := s }.eval n).subject).text = .ok settled ∧
      clear ≠ settled := by
  obtain ⟨z, a, hz, ha⟩ := Fast.exists_ten_pow hlow
  obtain ⟨v, hv, hnumber⟩ := exists_of_applySite_settled hlow ha
  have hthird := eval_quotient (i := { i with store := .ofPair 1 3 }) false rfl hdepth
  have hclear := eval_quotient (i := { i with store := .ofPair a 1 }) false rfl hdepth
  have hsettled := eval_quotient (i := { i with store := .ofPair a 1 }) true rfl hdepth
  refine ⟨.quotient false, .ofPair 1 3, .ofPair a 1, (Value.fast a).text, v.text, ?_, ?_, ?_⟩
  · rw [Evaluation.text, hclear.1, result_applySite_clear]
    rfl
  · rw [hthird.2, show (applySite .div i.settings.divisionPrecision false (.fast 1)
      (.fast 3)).settled = true from rfl, Evaluation.text, hsettled.1, hv]
    rfl
  · intro htext
    have hpower : v.text = (Value.fast z).text :=
      Value.text_eq_of_toRat_eq (by rw [hnumber, Value.toRat_fast, hz]; push_cast; rfl)
    have hpos : (0 : ℤ) < 10 ^ i.settings.divisionPrecision := by positivity
    have heq := Value.eq_of_text_fast_eq (by omega) (by omega) (htext.trans hpower)
    rw [heq] at ha
    omega

end Interpreter

/-- With 19 digits or more, and only then, a site between two integers gives the same number
or the same error whether it has settled or not. With fewer, which are settings that a
single run accepts, there is a tree whose text changes once its site has settled. -/
theorem settled_bit_unobservable_iff (i : Interpreter)
    (hdepth : i.depth + 2 ≤ i.settings.maxDepth)
    (hcount : i.settings.divisionPrecision + 21 < 2 ^ 32) :
    ((∀ (op : Operator) (a b : Int64),
        (i.eval (.binary op true (.fast a) (.fast b))).result.map Value.toRat =
          (i.eval (.binary op false (.fast a) (.fast b))).result.map Value.toRat) ↔
      19 ≤ i.settings.divisionPrecision) ∧
    (i.settings.divisionPrecision ≤ 18 →
      i.settings.validate = .ok i.settings ∧
      ∃ (n : Node) (s t : Store) (clear settled : String),
        ({ i with store := t }.eval n).text = .ok clear ∧
        ({ i with store := t }.eval ({ i with store := s }.eval n).subject).text = .ok settled ∧
        clear ≠ settled) := by
  refine ⟨⟨fun hsame => ?_, fun hhigh op a b => ?_⟩, fun hlow => ⟨?_, ?_⟩⟩
  · by_contra hlt
    obtain ⟨x, y, hne⟩ := Interpreter.exists_eval_literals_settled_ne hdepth (by omega)
    exact hne (hsame .div x y)
  · exact Interpreter.eval_literals_settled_eq op a b hdepth hhigh hcount
  · exact if_pos (by rw [Settings.precisionLimit]; omega)
  · exact Interpreter.exists_text_eval_changes hdepth hlow

/-- With 18 digits the text of a quotient still shows that its site has settled. -/
theorem settled_bit_unobservable_iff_eighteen :
    let i : Interpreter := { settings := { divisionPrecision := 18 } }
    i.depth + 2 ≤ i.settings.maxDepth ∧ i.settings.divisionPrecision + 21 < 2 ^ 32 ∧
      ∃ (n : Node) (s t : Store) (clear settled : String),
        ({ i with store := t }.eval n).text = .ok clear ∧
        ({ i with store := t }.eval ({ i with store := s }.eval n).subject).text = .ok settled ∧
        clear ≠ settled := by
  intro i
  have hdepth : i.depth + 2 ≤ i.settings.maxDepth := by decide
  have hcount : i.settings.divisionPrecision + 21 < 2 ^ 32 := by decide
  exact ⟨hdepth, hcount, ((settled_bit_unobservable_iff i hdepth hcount).2 le_rfl).2⟩

end AdaptiveCalc
