import AdaptiveCalc.Proofs.Decimal.PlainText

/-!
# Canonical texts

The text of a number wastes nothing: there is no zero in front of the integer part unless it
is the only digit, none behind a fraction, no point without a fraction, no exponent, and no
sign before a zero. Two numbers share such a text only if they are equal. Main statements:
`isCanonical_canonicalChars` and `canonicalChars_inj`.
-/
namespace AdaptiveCalc

theorem exists_naturalChars_concat (n : ℕ) :
    ∃ rest, naturalChars n = rest ++ [(n % 10).digitChar] := by
  rw [naturalChars_eq, Nat.toDigits_eq_if (by decide)]
  split_ifs with h
  · exact ⟨[], by rw [Nat.mod_eq_of_lt h, List.nil_append]⟩
  · exact ⟨_, rfl⟩

theorem exists_naturalChars_cons {n : ℕ} (hn : n ≠ 0) :
    ∃ c rest, naturalChars n = c :: rest ∧ c ≠ '0' := by
  simp only [naturalChars_eq]
  induction n using Nat.strong_induction_on with
  | _ n ih =>
    rw [Nat.toDigits_eq_if (by decide)]
    split_ifs with h
    · exact ⟨_, [], rfl, mt Nat.digitChar_eq_zero.1 hn⟩
    · obtain ⟨c, rest, hrest, hc⟩ := ih (n / 10) (by omega) (by omega)
      exact ⟨c, _, by rw [hrest, List.cons_append], hc⟩

namespace Decimal

/-- The digits before a point: a single zero, or no zero in front. -/
def IsWhole (digits : List Char) : Prop :=
  (∀ c ∈ digits, c.isDigit = true) ∧
    (digits = ['0'] ∨ ∃ c rest, digits = c :: rest ∧ c ≠ '0')

/-- The digits behind a point: at least one, and no zero at the end. -/
def IsFraction (digits : List Char) : Prop :=
  (∀ c ∈ digits, c.isDigit = true) ∧ ∃ rest c, digits = rest ++ [c] ∧ c ≠ '0'

/-- A text that wastes nothing. -/
inductive IsCanonical : List Char → Prop
  /-- A zero has no sign. -/
  | integer {sign whole : List Char} (hsign : sign = [] ∨ sign = ['-']) (hwhole : IsWhole whole)
      (hzero : whole = ['0'] → sign = []) : IsCanonical (sign ++ whole)
  | pointed {sign whole fraction : List Char} (hsign : sign = [] ∨ sign = ['-'])
      (hwhole : IsWhole whole) (hfraction : IsFraction fraction) :
      IsCanonical (sign ++ (whole ++ '.' :: fraction))

theorem not_isCanonical_minus_zero : ¬IsCanonical ['-', '0'] := by
  intro h
  generalize htext : ['-', '0'] = text at h
  cases h with
  | @integer sign whole hsign hwhole hzero =>
    rcases hsign with rfl | rfl
    · have hminus : '-' ∈ [] ++ whole := htext ▸ List.mem_cons_self
      cases hwhole.1 _ hminus
    · have hwhole' : whole = ['0'] := (List.cons.inj htext).2.symm
      cases hzero hwhole'
  | pointed =>
    have hpoint : '.' ∈ ['-', '0'] := by simp [htext]
    simp at hpoint

theorem signChars_cases (n : ℤ) : signChars n = [] ∨ signChars n = ['-'] := by
  unfold signChars
  split_ifs
  · exact .inr rfl
  · exact .inl rfl

/-- Digits before the point of a number other than zero are not padded, unless there are none
but the zero that stands for them. -/
theorem isWhole_of_paddedChars {n places : ℕ} {whole fraction : List Char} (hn : n ≠ 0)
    (hpadded : whole ++ fraction = paddedChars (places + 1) n) (hne : whole ≠ [])
    (hlength : fraction.length = places) : IsWhole whole := by
  refine ⟨fun c hc => isDigit_of_mem_paddedChars _ _ (hpadded ▸ List.mem_append_left _ hc), ?_⟩
  obtain ⟨c, rest, rfl⟩ := List.exists_cons_of_ne_nil hne
  rw [paddedChars] at hpadded
  cases hzeros : places + 1 - (naturalChars n).length with
  | zero =>
    obtain ⟨first, tail, hfirst, hfirst'⟩ := exists_naturalChars_cons hn
    rw [hzeros, hfirst] at hpadded
    have hc : c = first := (List.cons.inj hpadded).1
    exact .inr ⟨c, rest, rfl, hc ▸ hfirst'⟩
  | succ k =>
    have hcount := congrArg List.length hpadded
    rw [hzeros, List.replicate_succ] at hpadded
    have hc : c = '0' := (List.cons.inj hpadded).1
    have hrest : rest = [] := by
      rw [← List.length_eq_zero_iff]
      simp only [List.length_append, List.length_cons, List.length_replicate] at hcount
      omega
    exact .inl (by rw [hc, hrest])

theorem isFraction_of_paddedChars {n places : ℕ} {whole fraction : List Char} (hn : n % 10 ≠ 0)
    (hpadded : whole ++ fraction = paddedChars (places + 1) n) (hne : fraction ≠ []) :
    IsFraction fraction := by
  refine ⟨fun c hc => isDigit_of_mem_paddedChars _ _ (hpadded ▸ List.mem_append_right _ hc), ?_⟩
  obtain ⟨front, hfront⟩ := exists_naturalChars_concat n
  obtain ⟨rest, c, rfl⟩ := (List.eq_nil_or_concat' fraction).resolve_left hne
  rw [paddedChars, hfront, ← List.append_assoc, ← List.append_assoc] at hpadded
  have hc : c = (n % 10).digitChar := by simpa using (List.append_inj' hpadded rfl).2
  exact ⟨rest, c, rfl, hc ▸ mt Nat.digitChar_eq_zero.1 hn⟩

theorem isCanonical_plainChars {m s : ℤ} (hm : m % 10 ≠ 0) :
    IsCanonical (⟨m, s⟩ : Decimal).plainChars := by
  have hm' : m.natAbs % 10 ≠ 0 := by omega
  have hne : m.natAbs ≠ 0 := by omega
  rcases Int.lt_or_le 0 s with hs | hs
  · obtain ⟨whole, fraction, htext, hpadded, hwhole, hlength⟩ :=
      exists_plainChars_of_pos (a := ⟨m, s⟩) hs
    have hplaces : 0 < s.toNat := by omega
    have hfraction : fraction ≠ [] := List.length_pos_iff.1 (hlength ▸ hplaces)
    rw [htext]
    exact .pointed (signChars_cases m) (isWhole_of_paddedChars hne hpadded hwhole hlength)
      (isFraction_of_paddedChars hm' hpadded hfraction)
  · obtain ⟨c, rest, hfirst, hc⟩ := exists_naturalChars_cons hne
    have hwhole : IsWhole (naturalChars m.natAbs ++ List.replicate (-s).toNat '0') :=
      ⟨fun _ => isDigit_of_mem_append_zeros, .inr ⟨c, _, by rw [hfirst, List.cons_append], hc⟩⟩
    rw [plainChars_of_nonpos hs]
    refine .integer (signChars_cases m) hwhole fun hzero => absurd ?_ hc
    rw [hfirst] at hzero
    exact (List.cons.inj hzero).1

theorem normalize_of_digits_eq_zero {a : Decimal} (h : a.digits = 0) : a.normalize = ⟨0, 0⟩ :=
  if_pos h

theorem scale_normalize_le (a : Decimal) : a.normalize.scale ≤ max a.scale 0 := by
  by_cases h : a.digits = 0
  · rw [normalize_of_digits_eq_zero h]
    exact le_max_right ..
  · obtain ⟨m, z, hn, -, -⟩ := normalize_eq h
    rw [hn]
    exact le_max_of_le_left (Int.sub_le_self _ (Int.natCast_nonneg z))

theorem scale_normalize_nonpos_iff {a : Decimal} :
    a.normalize.scale ≤ 0 ↔ ∃ z : ℤ, a.toRat = z := by
  constructor
  · intro h
    exact ⟨a.normalize.digitsAt 0, by rw [cast_digitsAt_zero h, toRat_normalize]⟩
  · rintro ⟨z, hz⟩
    have hsame : a.normalize = (ofInt z).normalize :=
      normalize_eq_of_toRat_eq (by rw [hz, toRat_ofInt])
    rw [hsame]
    exact (scale_normalize_le _).trans_eq (max_self 0)

theorem isCanonical_canonicalChars (a : Decimal) : IsCanonical a.canonicalChars := by
  by_cases ha : a.digits = 0
  · have hzero : a.canonicalChars = [] ++ ['0'] := by
      rw [canonicalChars, normalize_of_digits_eq_zero ha]
      decide +kernel
    rw [hzero]
    exact .integer (.inl rfl) ⟨List.forall_mem_singleton.2 rfl, .inl rfl⟩ fun _ => rfl
  · obtain ⟨m, z, hnormal, -, hm⟩ := normalize_eq ha
    rw [canonicalChars, hnormal]
    exact isCanonical_plainChars hm

theorem plainChars_expanded_normalize (a : Decimal) :
    a.normalize.expanded.plainChars = a.canonicalChars := by
  by_cases h : a.digits = 0
  · rw [canonicalChars, normalize_of_digits_eq_zero h, expanded_of_nonneg le_rfl]
  · have hne : a.normalize.digits ≠ 0 := by
      rwa [← a.toRat_eq_zero_iff, ← toRat_normalize, toRat_eq_zero_iff] at h
    rw [canonicalChars, plainChars_expanded hne]

theorem canonicalChars_inj {a b : Decimal} :
    a.canonicalChars = b.canonicalChars ↔ a.toRat = b.toRat := by
  constructor
  · intro h
    rw [← toRat_normalize a, toRat_eq_of_plainChars_eq h, toRat_normalize]
  · exact canonicalChars_eq_of_toRat_eq

end Decimal
end AdaptiveCalc
