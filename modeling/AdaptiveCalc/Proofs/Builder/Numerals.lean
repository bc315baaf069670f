import AdaptiveCalc.Builder
import AdaptiveCalc.Proofs.Decimal.Grammar
import AdaptiveCalc.Proofs.Decimal.Number
import AdaptiveCalc.Proofs.Fast
import Mathlib.Data.List.DropRight

/-!
# Numerals

A numeral is the decimal that its text writes, kept digit for digit, or the integer of 64
bits that this decimal stands for. Which of the two it is can be told from the number and the
scale: the bound on the zeros of an exponent, which spares writing them out, never turns away
an integer of 64 bits other than zero. Main statement: `numerals_classified`.
-/
namespace AdaptiveCalc
namespace Text

theorem trim_eq_rdropWhile (cs : List Char) :
    trim cs = (cs.dropWhile isBlank).rdropWhile isBlank := rfl

theorem trim_eq_self {cs : List Char} (h : ∀ c ∈ cs, isBlank c = false) : trim cs = cs := by
  rw [trim_eq_rdropWhile, List.dropWhile_eq_self_iff.2, List.rdropWhile_eq_self_iff.2]
  · exact fun hne => by simp [h _ (List.getLast_mem hne)]
  · exact fun hlen => by simp [h _ (List.getElem_mem hlen)]

theorem trim_trim (cs : List Char) : trim (trim cs) = trim cs := by
  have hhead : (trim cs).dropWhile isBlank = trim cs := by
    rw [List.dropWhile_eq_self_iff]
    intro hlen
    have hfront : trim cs <+: cs.dropWhile isBlank := List.rdropWhile_prefix ..
    have hinner := List.dropWhile_eq_self_iff.1 (List.dropWhile_idempotent (p := isBlank) cs)
    rw [hfront.getElem hlen]
    exact hinner (hlen.trans_le hfront.length_le)
  rw [trim_eq_rdropWhile (trim cs), hhead, trim_eq_rdropWhile, List.rdropWhile_idempotent]

end Text

namespace Decimal

theorem fits_digitsAt_zero_iff {d : Decimal} (h : d.scale ≤ 0) :
    Fast.Fits (d.digitsAt 0) ↔ -2 ^ 63 ≤ d.toRat ∧ d.toRat ≤ 2 ^ 63 - 1 := by
  rw [← cast_digitsAt_zero h, Fast.Fits, ← Int.le_sub_one_iff]
  norm_cast

/-- Another integer than zero with so many zeros has more than 64 bits. -/
theorem not_fits_of_scale_lt {d : Decimal} (hd : d.digits ≠ 0)
    (h : d.scale < -Numeral.maxZeros) : ¬Fast.Fits (d.digitsAt 0) := by
  have hzeros : 19 ≤ (0 - d.scale).toNat := by
    rw [Numeral.maxZeros] at h
    omega
  have hpow : 10 ^ 19 ≤ 10 ^ (0 - d.scale).toNat := Nat.pow_le_pow_right (by decide) hzeros
  have hdigits : 1 ≤ d.digits.natAbs := Int.natAbs_pos.2 hd
  have habs : 10 ^ 19 ≤ (d.digitsAt 0).natAbs :=
    calc 10 ^ 19
        ≤ 1 * 10 ^ (0 - d.scale).toNat := by rwa [Nat.one_mul]
      _ ≤ d.digits.natAbs * 10 ^ (0 - d.scale).toNat := Nat.mul_le_mul_right _ hdigits
      _ = (d.digitsAt 0).natAbs := by rw [digitsAt, Int.natAbs_mul, Int.natAbs_pow]; rfl
  unfold Fast.Fits
  omega

end Decimal

namespace Numeral

theorem classify_eq_fast_iff {d : Decimal} {n : Int64} : classify d = .fast n ↔
    (-maxZeros ≤ d.scale ∧ d.scale ≤ 0) ∧ n.toInt = d.digitsAt 0 := by
  rw [← Fast.narrow_eq_ok_iff]
  unfold classify
  split_ifs with hscale
  · cases Fast.narrow (d.digitsAt 0) <;> simp [hscale]
  · simp [hscale]

theorem isFast_classify_iff {d : Decimal} : (classify d).isFast = true ↔
    (-maxZeros ≤ d.scale ∧ d.scale ≤ 0) ∧ Fast.Fits (d.digitsAt 0) := by
  rw [← Fast.exists_narrow_iff]
  unfold classify
  split_ifs with hscale
  · cases Fast.narrow (d.digitsAt 0) <;> simp [hscale]
  · simp [hscale]

theorem classify_eq_precise {d : Decimal} (h : (classify d).isFast = false) :
    classify d = .precise d := by
  unfold classify at h ⊢
  split_ifs at h ⊢
  · cases hn : Fast.narrow (d.digitsAt 0) with
    | ok n =>
      rw [hn] at h
      cases h
    | error _ => rfl
  · rfl

theorem eq_of_classify_eq_precise {d e : Decimal} (h : classify d = .precise e) : e = d := by
  have hfast : (classify d).isFast = false := by rw [h, Value.isFast_precise]
  rw [classify_eq_precise hfast] at h
  exact (Value.precise.inj h).symm

/-- What a numeral with the digits and the scale of `d` is read as. -/
structure Classified (d : Decimal) (v : Value) : Prop where
  toRat : v.toRat = d.toRat
  keeps : v.isFast = false → v = .precise d
  isFast_iff : d.digits ≠ 0 →
    (v.isFast = true ↔ d.scale ≤ 0 ∧ -2 ^ 63 ≤ d.toRat ∧ d.toRat ≤ 2 ^ 63 - 1)
  /-- Zero is an integer only if not too many zeros would have to be written. -/
  isFast_zero_iff : d.digits = 0 → (v.isFast = true ↔ -18 ≤ d.scale ∧ d.scale ≤ 0)

theorem toRat_classify (d : Decimal) : (classify d).toRat = d.toRat := by
  cases hv : classify d with
  | precise e => rw [eq_of_classify_eq_precise hv, Value.toRat_precise]
  | fast n =>
    obtain ⟨⟨-, hscale⟩, hn⟩ := classify_eq_fast_iff.1 hv
    rw [Value.toRat_fast, hn, Decimal.cast_digitsAt_zero hscale]

theorem classified (d : Decimal) : Classified d (classify d) where
  toRat := toRat_classify d
  keeps := classify_eq_precise
  isFast_iff hd := by
    rw [isFast_classify_iff]
    constructor
    · rintro ⟨⟨-, hscale⟩, hfits⟩
      exact ⟨hscale, (Decimal.fits_digitsAt_zero_iff hscale).1 hfits⟩
    · rintro ⟨hscale, hrange⟩
      have hfits := (Decimal.fits_digitsAt_zero_iff hscale).2 hrange
      have hzeros : -maxZeros ≤ d.scale := by
        by_contra hlt
        exact Decimal.not_fits_of_scale_lt hd (Int.not_le.1 hlt) hfits
      exact ⟨⟨hzeros, hscale⟩, hfits⟩
  isFast_zero_iff hd := by
    rw [isFast_classify_iff, maxZeros, and_iff_left]
    rw [Decimal.digitsAt, hd, Int.zero_mul]
    decide

end Numeral

namespace Builder
variable {text : String}

theorem number_of_read? {d : Decimal} (h : Decimal.read? (Text.trim text.toList) = some d) :
    number text = .ok (.literal (Numeral.classify d)) := by
  simp only [number, numeral, Numeral.read?, h]
  rfl

theorem number_of_not_read? (h : Decimal.read? (Text.trim text.toList) = none) :
    number text = .error (.invalidNumeral text) := by
  simp only [number, numeral, Numeral.read?, h]
  rfl

theorem number_eq_ok_iff {n : Node} : number text = .ok n ↔
    ∃ d, Decimal.read? (Text.trim text.toList) = some d ∧ .literal (Numeral.classify d) = n := by
  cases hread : Decimal.read? (Text.trim text.toList) with
  | none => simp [number_of_not_read? hread]
  | some d => simp [number_of_read? hread]

theorem number_eq_error_iff {e : BuildError} : number text = .error e ↔
    e = .invalidNumeral text ∧ Decimal.read? (Text.trim text.toList) = none := by
  cases hread : Decimal.read? (Text.trim text.toList) with
  | none => simp [number_of_not_read? hread, eq_comm]
  | some d => simp [number_of_read? hread]

theorem toOption_number_trim (text : String) :
    (number text).toOption = (number (String.ofList (Text.trim text.toList))).toOption := by
  have htrim : Text.trim (String.ofList (Text.trim text.toList)).toList =
      Text.trim text.toList := by
    rw [String.toList_ofList, Text.trim_trim]
  cases hread : Decimal.read? (Text.trim text.toList) with
  | none =>
    rw [number_of_not_read? hread, number_of_not_read? (by rw [htrim, hread])]
    rfl
  | some d => rw [number_of_read? hread, number_of_read? (by rw [htrim, hread])]

end Builder

/-- A numeral fails, with the whole text in the error, exactly where nothing is left of the
text without its blanks or the grammar does not put that together. Otherwise the literal is the
number written, and nothing else about the text counts than what is left between the blanks. -/
theorem numerals_classified (text : String) :
    let trimmed := Text.trim text.toList
    (∀ e, Builder.number text = .error e ↔ e = .invalidNumeral text ∧
      (trimmed = [] ∨ ¬∃ d, Decimal.Writes trimmed d ∧ Decimal.ScaleFits d.scale)) ∧
    (∀ d, Decimal.Writes trimmed d → Decimal.ScaleFits d.scale →
      ∃ v, Builder.number text = .ok (.literal v) ∧ Numeral.Classified d v) ∧
    (Builder.number text).toOption = (Builder.number (String.ofList trimmed)).toOption := by
  intro trimmed
  have hnone : (trimmed = [] ∨ ¬∃ d, Decimal.Writes trimmed d ∧ Decimal.ScaleFits d.scale) ↔
      Decimal.read? trimmed = none := by
    simp only [← Decimal.read?_eq_some_iff, ← Option.eq_none_iff_forall_ne_some, not_exists]
    rw [or_iff_right_of_imp]
    intro hempty
    rw [hempty]
    rfl
  refine ⟨fun e => ?_, fun d hwrites hscale => ?_, Builder.toOption_number_trim text⟩
  · rw [Builder.number_eq_error_iff, hnone]
  · have hread := Decimal.read?_eq_some_iff.2 ⟨hwrites, hscale⟩
    exact ⟨_, Builder.number_of_read? hread, Numeral.classified d⟩

/-- The exponent takes the place of the fraction away, and an integer is left, the smallest. -/
theorem numerals_classified_smallest :
    let text := " -922337203685477580.8e1 "
    let d : Decimal := ⟨-9223372036854775808, 0⟩
    Decimal.Writes (Text.trim text.toList) d ∧ Decimal.ScaleFits d.scale ∧
      ∃ v, Builder.number text = .ok (.literal v) ∧ Numeral.Classified d v ∧
        v = .fast Int64.minValue := by
  intro text d
  have hread : Decimal.read? (Text.trim text.toList) = some d := by decide +kernel
  obtain ⟨hwrites, hscale⟩ := Decimal.read?_eq_some_iff.1 hread
  obtain ⟨v, hv, hclassified⟩ := (numerals_classified text).2.1 d hwrites hscale
  have hnumber : Builder.number text = .ok (.fast Int64.minValue) := by decide +kernel
  refine ⟨hwrites, hscale, v, hv, hclassified, ?_⟩
  rw [hnumber] at hv
  cases v with
  | fast n => cases hv; rfl
  | precise e => cases hv

end AdaptiveCalc
