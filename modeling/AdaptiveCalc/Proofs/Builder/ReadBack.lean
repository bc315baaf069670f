import AdaptiveCalc.Node.Text
import AdaptiveCalc.Proofs.Builder.Numerals
import AdaptiveCalc.Proofs.Decimal.Canonical

/-!
# Reading texts back

The text of a value and the text of a literal are numerals again. That of a value tells the
number and no more, so it comes back as an integer wherever it can. That of a literal keeps
the digits that it was written with, so it comes back as the same literal, but for the zeros
that a negative scale stands for. Main statements: `value_text_canonical` and
`literal_text_reads_back`.
-/
namespace AdaptiveCalc

namespace Text

theorem isBlank_of_isDigit {c : Char} (h : c.isDigit = true) : isBlank c = false := by
  rw [Char.isDigit_iff_toNat] at h
  have hlo : 48 ≤ c.toNat := h.1
  have hhi : c.toNat ≤ 57 := h.2
  simp only [isBlank, Bool.or_eq_false_iff, Bool.and_eq_false_iff, decide_eq_false_iff_not,
    beq_eq_false_iff_ne]
  omega

end Text

namespace Decimal
variable {a : Decimal}

theorem trim_plainChars (a : Decimal) : Text.trim a.plainChars = a.plainChars := by
  apply Text.trim_eq_self
  intro c hc
  rcases mem_plainChars hc with hdigit | rfl | rfl
  · exact Text.isBlank_of_isDigit hdigit
  · decide
  · decide

theorem scaleFits_expanded (h : a.scale < 2 ^ 63) : ScaleFits a.expanded.scale := by
  have hnonneg := a.scale_expanded_nonneg
  have hlt : a.expanded.scale < 2 ^ 63 := by
    unfold expanded
    split_ifs
    · norm_num
    · exact h
  exact ⟨by omega, hlt⟩

/-- A number is an integer of 64 bits exactly where its text is read as one. -/
theorem fits_normalize_iff {a : Decimal} :
    (a.normalize.scale ≤ 0 ∧ Fast.Fits (a.normalize.digitsAt 0)) ↔
      ∃ n : Int64, a.toRat = n.toInt := by
  constructor
  · rintro ⟨hscale, hfits⟩
    obtain ⟨n, hn⟩ := Fast.exists_narrow_iff.2 hfits
    refine ⟨n, ?_⟩
    rw [Fast.toInt_of_narrow hn, cast_digitsAt_zero hscale, toRat_normalize]
  · rintro ⟨n, hn⟩
    have hscale : a.normalize.scale ≤ 0 := scale_normalize_nonpos_iff.2 ⟨_, hn⟩
    have hdigits : a.normalize.digitsAt 0 = n.toInt := by
      rw [← toRat_normalize, ← cast_digitsAt_zero hscale] at hn
      exact_mod_cast hn
    exact ⟨hscale, hdigits ▸ Fast.fits_toInt n⟩

end Decimal

namespace Numeral

theorem isFast_classify_expanded_iff {a : Decimal} : (classify a.expanded).isFast = true ↔
    a.scale ≤ 0 ∧ Fast.Fits (a.digitsAt 0) := by
  rw [isFast_classify_iff]
  unfold Decimal.expanded
  split_ifs with h
  · simp [h, Decimal.digitsAt, maxZeros]
  · simp [h]

/-- But for zero, a numeral keeps its kind when the zeros of its scale are written out. -/
theorem isFast_classify_expanded {d : Decimal} (hd : d.digits ≠ 0) :
    (classify d.expanded).isFast = (classify d).isFast := by
  rw [Bool.eq_iff_iff, isFast_classify_expanded_iff, (classified d).isFast_iff hd]
  exact and_congr_right Decimal.fits_digitsAt_zero_iff

theorem classify_ofInt (n : Int64) : classify (.ofInt n.toInt) = .fast n := by
  rw [classify_eq_fast_iff]
  simp [maxZeros, Decimal.digitsAt]

theorem toDecimal_classify {d : Decimal} (h : 0 ≤ d.scale) : (classify d).toDecimal = d := by
  cases hd : classify d with
  | precise e => exact eq_of_classify_eq_precise hd
  | fast n =>
    obtain ⟨⟨-, hscale⟩, hn⟩ := classify_eq_fast_iff.1 hd
    calc Decimal.ofInt n.toInt
        = .ofInt (d.digitsAt 0) := by rw [hn]
      _ = d.expanded := (if_pos hscale).symm
      _ = d := Decimal.expanded_of_nonneg h

end Numeral

namespace Node

theorem chars_literal (v : Value) : (literal v).chars = v.toDecimal.plainChars := by
  cases v with
  | precise d => rfl
  | fast n => simp [literal, chars, integerChars, Decimal.plainChars]

theorem text_literal (v : Value) : (literal v).text = String.ofList v.toDecimal.plainChars := by
  rw [← String.toList_inj, toList_text, String.toList_ofList, chars_literal]

theorem text_literal_classify (a : Decimal) :
    (literal (Numeral.classify a.expanded)).text = String.ofList a.expanded.plainChars := by
  rw [text_literal, Numeral.toDecimal_classify a.scale_expanded_nonneg]

end Node

namespace Builder

theorem number_plainChars {a : Decimal} (h : a.scale < 2 ^ 63) :
    number (String.ofList a.plainChars) = .ok (.literal (Numeral.classify a.expanded)) := by
  apply number_of_read?
  rw [String.toList_ofList, a.trim_plainChars, Decimal.read?_eq_some_iff]
  exact ⟨a.writes_plainChars, Decimal.scaleFits_expanded h⟩

theorem number_text_literal {v : Value} (h : v.toDecimal.scale < 2 ^ 63) :
    number (Node.literal v).text = .ok (.literal (Numeral.classify v.toDecimal.expanded)) := by
  rw [Node.text_literal, number_plainChars h]

theorem exists_of_number_eq_ok {text : String} {n : Node} (h : number text = .ok n) :
    ∃ v, n = .literal v ∧ v.toDecimal.scale < 2 ^ 63 ∧
      ∀ d, v = .precise d → Numeral.classify d = .precise d := by
  obtain ⟨d, hread, rfl⟩ := number_eq_ok_iff.1 h
  have hscale := (Decimal.read?_eq_some_iff.1 hread).2
  refine ⟨Numeral.classify d, rfl, ?_⟩
  cases hd : Numeral.classify d with
  | fast n => simp
  | precise e =>
    obtain rfl := Numeral.eq_of_classify_eq_precise hd
    exact ⟨hscale.2, fun d' hd' => Value.precise.inj hd' ▸ hd⟩

end Builder

namespace Value

theorem text_eq (v : Value) : v.text = String.ofList v.toDecimal.canonicalChars := by
  rw [text, chars_eq]

theorem text_eq_iff {v w : Value} : v.text = w.text ↔ v.toRat = w.toRat := by
  rw [text_eq, text_eq, String.ofList_inj, Decimal.canonicalChars_inj]
  rfl

/-- `w` is what the text of `v` is read back as. -/
structure ReadBack (v w : Value) : Prop where
  number : Builder.number v.text = .ok (.literal w)
  toRat : w.toRat = v.toRat
  text : w.text = v.text
  literal_text : (Node.literal w).text = v.text
  isFast_iff : w.isFast = true ↔ ∃ n : Int64, v.toRat = n.toInt

theorem readBack_classify {v : Value} (h : Decimal.ScaleFits v.toDecimal.scale) :
    v.ReadBack (Numeral.classify v.toDecimal.normalize.expanded) := by
  have hscale : v.toDecimal.normalize.scale < 2 ^ 63 :=
    v.toDecimal.scale_normalize_le.trans_lt (max_lt h.2 (by norm_num))
  have hnumber : (Numeral.classify v.toDecimal.normalize.expanded).toRat = v.toRat := by
    rw [Numeral.toRat_classify, Decimal.toRat_expanded, Decimal.toRat_normalize, toRat]
  constructor
  · rw [text_eq, Decimal.canonicalChars, Builder.number_plainChars hscale]
  · exact hnumber
  · exact text_eq_iff.2 hnumber
  · rw [text_eq, Node.text_literal_classify, Decimal.plainChars_expanded_normalize]
  · rw [Numeral.isFast_classify_expanded_iff, Decimal.fits_normalize_iff, toRat]

end Value

/-- The text of a value tells its number and nothing else, not the kind nor the digits and the
scale that it is kept with. It is read back as that number, and shown the same again. -/
theorem value_text_canonical (v : Value) :
    (∀ w : Value, v.text = w.text ↔ v.toRat = w.toRat) ∧
    Decimal.IsCanonical v.text.toList ∧ v.text ≠ "-0" ∧
    (Decimal.ScaleFits v.toDecimal.scale → ∃ w, v.ReadBack w) := by
  have hcanonical : Decimal.IsCanonical v.text.toList := by
    rw [Value.text_eq, String.toList_ofList]
    exact v.toDecimal.isCanonical_canonicalChars
  refine ⟨fun w => Value.text_eq_iff, hcanonical, ?_, fun h => ⟨_, Value.readBack_classify h⟩⟩
  intro hminus
  rw [hminus] at hcanonical
  exact Decimal.not_isCanonical_minus_zero hcanonical

/-- A negative fraction that starts behind the point, kept with zeros at its end. -/
theorem value_text_canonical_small :
    let v : Value := .precise ⟨-1500, 5⟩
    Decimal.ScaleFits v.toDecimal.scale ∧
      (∃ w, v.ReadBack w) ∧ v.text = "-0.015" := by
  intro v
  have hscale : Decimal.ScaleFits v.toDecimal.scale := by
    rw [Decimal.ScaleFits]
    decide
  have hnormal : v.toDecimal.normalize = ⟨-15, 3⟩ := by
    simp [v, Decimal.normalize, Decimal.stripZeros]
  have htext : v.text = "-0.015" := by
    rw [Value.text_eq, Decimal.canonicalChars, hnormal]
    decide +kernel
  exact ⟨hscale, (value_text_canonical v).2.2.2 hscale, htext⟩

/-- A literal is written with the digits and the scale that it keeps, and these are read back,
the zeros at the end too. Of a negative scale the zeros come back as digits. -/
theorem literal_text_reads_back {text : String} {n : Node} (h : Builder.number text = .ok n) :
    ∃ v w : Value, n = .literal v ∧ Builder.number n.text = .ok (.literal w) ∧
      w.toRat = v.toRat ∧ (v.isFast = true → w = v) ∧
      ∀ d, v = .precise d → (0 < d.scale → w = v) ∧
        (d.scale ≤ 0 → d.digits ≠ 0 → w.isFast = false ∧ (Node.literal w).text = n.text) := by
  obtain ⟨v, rfl, hscale, hprecise⟩ := Builder.exists_of_number_eq_ok h
  refine ⟨v, _, rfl, Builder.number_text_literal hscale, ?_, ?_, ?_⟩
  · rw [Numeral.toRat_classify, Decimal.toRat_expanded, Value.toRat]
  · intro hfast
    cases v with
    | precise d => cases hfast
    | fast n =>
      rw [Value.toDecimal_fast, Decimal.expanded_of_nonneg le_rfl, Numeral.classify_ofInt]
  · rintro d rfl
    have hclassify := hprecise d rfl
    rw [Value.toDecimal_precise]
    constructor
    · intro hpos
      rw [Decimal.expanded_of_nonneg hpos.le, hclassify]
    · intro _ hd
      constructor
      · rw [Numeral.isFast_classify_expanded hd, hclassify, Value.isFast_precise]
      · rw [Node.text_literal_classify, Decimal.plainChars_expanded hd, Node.text_literal,
          Value.toDecimal_precise]

/-- The zeros of an exponent are written out, and the number does not become an integer of
64 bits by that. -/
theorem literal_text_reads_back_exponent :
    let n : Node := .literal (.precise ⟨1, -19⟩)
    Builder.number "1e19" = .ok n ∧
      ∃ v w : Value, n = .literal v ∧ Builder.number n.text = .ok (.literal w) ∧
        w.toRat = v.toRat ∧ (v.isFast = true → w = v) ∧
        ∀ d, v = .precise d → (0 < d.scale → w = v) ∧
          (d.scale ≤ 0 → d.digits ≠ 0 → w.isFast = false ∧ (Node.literal w).text = n.text) := by
  have h : Builder.number "1e19" = .ok (.literal (.precise ⟨1, -19⟩)) := by decide +kernel
  exact ⟨h, literal_text_reads_back h⟩

end AdaptiveCalc
