import AdaptiveCalc.Proofs.Decimal.Grammar
import AdaptiveCalc.Proofs.Decimal.Number

/-!
# What the plain text of a decimal writes

The plain text of a decimal is a numeral, and it writes the same decimal again, unless the
scale is negative: the zeros that such a scale stands for are written out, and so they come
back as digits. Main statement: `writes_plainChars`.
-/
namespace AdaptiveCalc

theorem isDigit_of_mem_naturalChars {n : ℕ} {c : Char} (h : c ∈ naturalChars n) :
    c.isDigit = true := by
  rw [naturalChars_eq] at h
  exact Nat.isDigit_of_mem_toDigits (by decide) (by decide) h

theorem isDigit_of_mem_append_zeros {n k : ℕ} {c : Char}
    (h : c ∈ naturalChars n ++ List.replicate k '0') : c.isDigit = true := by
  rcases List.mem_append.1 h with h | h
  · exact isDigit_of_mem_naturalChars h
  · exact List.eq_of_mem_replicate h ▸ rfl

theorem naturalChars_ne_nil (n : ℕ) : naturalChars n ≠ [] := by
  rw [naturalChars_eq]
  exact Nat.toDigits_ne_nil

theorem ofDigitChars_naturalChars (n : ℕ) : Nat.ofDigitChars 10 (naturalChars n) 0 = n := by
  rw [naturalChars_eq, Nat.ofDigitChars_ten_toDigits]

namespace Decimal

theorem eq_minus_of_mem_signChars {n : ℤ} {c : Char} (h : c ∈ signChars n) : c = '-' := by
  unfold signChars at h
  split_ifs at h
  · exact List.mem_singleton.1 h
  · cases h

theorem writesSign_signChars (n : ℤ) : WritesSign (signChars n) (decide (n < 0)) := by
  unfold signChars
  by_cases h : n < 0
  · rw [if_pos h, decide_eq_true h]
    exact .minus
  · rw [if_neg h, decide_eq_false h]
    exact .absent

theorem withSign_natAbs_mul (n : ℤ) (k : ℕ) :
    withSign (decide (n < 0)) (n.natAbs * k) = n * k := by
  by_cases h : n < 0
  · rw [decide_eq_true h, withSign, if_pos rfl]
    push_cast
    rw [abs_of_neg h, neg_mul, neg_neg]
  · rw [decide_eq_false h, withSign, if_neg (by decide)]
    push_cast
    rw [abs_of_nonneg (Int.not_lt.1 h)]

theorem WritesDigits.of_isDigit {sign digits : List Char} {negative : Bool}
    (hsign : WritesSign sign negative) (hne : digits ≠ [])
    (hdigits : ∀ c ∈ digits, c.isDigit = true) :
    WritesDigits (sign ++ digits) (withSign negative (Nat.ofDigitChars 10 digits 0)) := by
  obtain ⟨c, rest, rfl⟩ := List.exists_cons_of_ne_nil hne
  have hrest : ∀ x ∈ rest, x.isDigit = true := fun x hx => hdigits x (List.mem_cons_of_mem c hx)
  have hfilter : rest.filter (· != '_') = rest := by
    rw [List.filter_eq_self]
    intro x hx
    rw [bne_iff_ne]
    rintro rfl
    cases hrest _ hx
  have hwrites := WritesDigits.intro hsign (hdigits c List.mem_cons_self) fun x hx =>
    .inl (hrest x hx)
  rwa [hfilter] at hwrites

theorem Writes.of_base {base unpointed : List Char} {places : ℕ} {digits : ℤ}
    (hbase : ∀ c ∈ base, c ≠ 'e' ∧ c ≠ 'E') (hpoint : Unpoints base unpointed places)
    (hdigits : WritesDigits unpointed digits) : Writes base ⟨digits, places⟩ := by
  simpa using Writes.intro hbase hpoint hdigits .absent

section
variable (width n : ℕ)

theorem length_paddedChars : width ≤ (paddedChars width n).length := by
  simp only [paddedChars, List.length_append, List.length_replicate]
  omega

theorem isDigit_of_mem_paddedChars {c : Char} (h : c ∈ paddedChars width n) :
    c.isDigit = true := by
  rcases List.mem_append.1 h with h | h
  · rw [List.eq_of_mem_replicate h]
    decide
  · exact isDigit_of_mem_naturalChars h

theorem ofDigitChars_paddedChars : Nat.ofDigitChars 10 (paddedChars width n) 0 = n := by
  simp only [paddedChars]
  rw [Nat.ofDigitChars_append, Nat.ofDigitChars_replicate_zero, Nat.mul_zero,
    ofDigitChars_naturalChars]

end

section
variable {a : Decimal}

theorem plainChars_of_nonpos (h : a.scale ≤ 0) :
    a.plainChars = signChars a.digits ++
      (naturalChars a.digits.natAbs ++ List.replicate (-a.scale).toNat '0') := by
  rw [plainChars, if_pos h]

theorem exists_plainChars_of_pos (h : 0 < a.scale) : ∃ whole fraction : List Char,
    a.plainChars = signChars a.digits ++ (whole ++ '.' :: fraction) ∧
      whole ++ fraction = paddedChars (a.scale.toNat + 1) a.digits.natAbs ∧
      whole ≠ [] ∧ fraction.length = a.scale.toNat := by
  have hlength := length_paddedChars (a.scale.toNat + 1) a.digits.natAbs
  have htext : a.plainChars =
      signChars a.digits ++ fractionChars a.digits.natAbs a.scale.toNat := by
    rw [plainChars, if_neg (Int.not_le.2 h)]
  refine ⟨_, _, htext, List.take_append_drop .., ?_, ?_⟩
  · rw [← List.length_pos_iff, List.length_take]
    omega
  · rw [List.length_drop]
    omega

theorem mem_plainChars {c : Char} (hc : c ∈ a.plainChars) :
    c.isDigit = true ∨ c = '-' ∨ c = '.' := by
  rcases Int.lt_or_le 0 a.scale with h | h
  · obtain ⟨whole, fraction, htext, hdigits, -, -⟩ := exists_plainChars_of_pos h
    have hmem : ∀ x ∈ whole ++ fraction, x.isDigit = true := fun x hx =>
      isDigit_of_mem_paddedChars _ _ (hdigits ▸ hx)
    simp only [List.mem_append] at hmem
    simp only [htext, List.mem_append, List.mem_cons] at hc
    rcases hc with hc | hc | rfl | hc
    · exact .inr (.inl (eq_minus_of_mem_signChars hc))
    · exact .inl (hmem c (.inl hc))
    · exact .inr (.inr rfl)
    · exact .inl (hmem c (.inr hc))
  · rw [plainChars_of_nonpos h, List.mem_append] at hc
    rcases hc with hc | hc
    · exact .inr (.inl (eq_minus_of_mem_signChars hc))
    · exact .inl (isDigit_of_mem_append_zeros hc)

end

/-- The same number with the zeros of a negative scale written out as digits. -/
def expanded (a : Decimal) : Decimal := if a.scale ≤ 0 then ⟨a.digitsAt 0, 0⟩ else a

@[simp] theorem toRat_expanded (a : Decimal) : a.expanded.toRat = a.toRat := by
  unfold expanded
  split_ifs with h
  · rw [← cast_digitsAt_zero h]
    simp [toRat]
  · rfl

theorem scale_expanded_nonneg (a : Decimal) : 0 ≤ a.expanded.scale := by
  unfold expanded
  split_ifs with h
  · exact le_rfl
  · exact (Int.not_le.1 h).le

section
variable {a : Decimal}

theorem expanded_of_nonneg (h : 0 ≤ a.scale) : a.expanded = a := by
  unfold expanded
  split_ifs with h'
  · obtain ⟨digits, scale⟩ := a
    obtain rfl : scale = 0 := le_antisymm h' h
    simp [digitsAt]
  · rfl

/-- Written out or not, the zeros of a negative scale look alike. -/
theorem plainChars_expanded (h : a.digits ≠ 0) : a.expanded.plainChars = a.plainChars := by
  rcases le_total 0 a.scale with hs | hs
  · rw [expanded_of_nonneg hs]
  · have habs : (a.digits * 10 ^ (-a.scale).toNat).natAbs =
        a.digits.natAbs * 10 ^ (-a.scale).toNat := by
      rw [Int.natAbs_mul, Int.natAbs_pow]
      rfl
    rw [expanded, if_pos hs, plainChars_of_nonpos hs, plainChars_of_nonpos le_rfl, digitsAt,
      Int.zero_sub, signChars_mul_ten_pow, habs,
      naturalChars_mul_ten_pow (Int.natAbs_ne_zero.2 h)]
    simp

theorem no_mark_of_mem_plainChars : ∀ c ∈ a.plainChars, c ≠ 'e' ∧ c ≠ 'E' := by
  intro c hc
  constructor <;> rintro rfl <;> simpa using mem_plainChars hc

theorem point_notMem {n : ℤ} {digits : List Char} (h : ∀ c ∈ digits, c.isDigit = true) :
    '.' ∉ signChars n ++ digits := by
  intro hmem
  rcases List.mem_append.1 hmem with hmem | hmem
  · cases eq_minus_of_mem_signChars hmem
  · cases h _ hmem

theorem writes_plainChars_of_nonpos (h : a.scale ≤ 0) :
    Writes a.plainChars ⟨a.digitsAt 0, 0⟩ := by
  have hdigits : ∀ c ∈ naturalChars a.digits.natAbs ++ List.replicate (-a.scale).toNat '0',
      c.isDigit = true := fun _ => isDigit_of_mem_append_zeros
  have hpoint := point_notMem (n := a.digits) hdigits
  have hwrites := WritesDigits.of_isDigit (writesSign_signChars a.digits)
    (List.append_ne_nil_of_left_ne_nil (naturalChars_ne_nil _) _) hdigits
  rw [Nat.ofDigitChars_append, Nat.ofDigitChars_replicate_zero, ofDigitChars_naturalChars,
    Nat.mul_comm, withSign_natAbs_mul] at hwrites
  rw [← plainChars_of_nonpos h] at hwrites hpoint
  rw [digitsAt, Int.zero_sub]
  exact_mod_cast Writes.of_base no_mark_of_mem_plainChars (.absent hpoint) hwrites

theorem writes_plainChars_of_pos (h : 0 < a.scale) : Writes a.plainChars a := by
  obtain ⟨whole, fraction, htext, hpadded, hne, hlength⟩ := exists_plainChars_of_pos h
  have hdigits : ∀ c ∈ whole ++ fraction, c.isDigit = true := fun c hc =>
    isDigit_of_mem_paddedChars _ _ (hpadded ▸ hc)
  have hwrites := WritesDigits.of_isDigit (writesSign_signChars a.digits)
    (List.append_ne_nil_of_left_ne_nil hne fraction) hdigits
  have hvalue := withSign_natAbs_mul a.digits 1
  rw [Nat.mul_one, Nat.cast_one, mul_one] at hvalue
  rw [hpadded, ofDigitChars_paddedChars, hvalue, ← hpadded, ← List.append_assoc] at hwrites
  have hplaces : fraction.countP (· != '_') = a.scale.toNat := by
    rw [← hlength, List.countP_eq_length]
    intro c hc
    rw [bne_iff_ne]
    rintro rfl
    cases hdigits _ (List.mem_append_right whole hc)
  have hpoint : Unpoints (signChars a.digits ++ whole ++ '.' :: fraction) _ _ :=
    .present (point_notMem fun c hc => hdigits c (List.mem_append_left fraction hc))
  rw [hplaces, List.append_assoc, ← htext] at hpoint
  have hbase := Writes.of_base no_mark_of_mem_plainChars hpoint hwrites
  rwa [Int.toNat_of_nonneg h.le] at hbase

end

theorem writes_plainChars (a : Decimal) : Writes a.plainChars a.expanded := by
  unfold expanded
  split_ifs with h
  · exact writes_plainChars_of_nonpos h
  · exact writes_plainChars_of_pos (Int.not_le.1 h)

/-- The plain text shows the number. -/
theorem toRat_eq_of_plainChars_eq {a b : Decimal} (h : a.plainChars = b.plainChars) :
    a.toRat = b.toRat := by
  have hwrites := writes_plainChars a
  rw [h] at hwrites
  have hsame := hwrites.unique (writes_plainChars b)
  rw [← toRat_expanded, hsame, toRat_expanded]

end Decimal
end AdaptiveCalc
