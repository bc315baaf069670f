import AdaptiveCalc.Proofs.Decimal.Canonical
import AdaptiveCalc.Settings.Integer

/-!
# Decimal integers in a settings document

How a document writes a decimal integer, said without the reader, and that the reader takes
each of these texts for its number. The usual text of an integer is one of them. Main
statements: `Writes.read?_eq` and `writes_integerChars`.
-/
namespace AdaptiveCalc.Settings.Integer

/-- Digits, with single underscores between them here and there. -/
inductive DigitRun : List Char → Prop
  | one {c : Char} (hc : c.isDigit = true) : DigitRun [c]
  | digit {c : Char} {cs : List Char} (hc : c.isDigit = true) (hcs : DigitRun cs) :
      DigitRun (c :: cs)
  | gap {c : Char} {cs : List Char} (hc : c.isDigit = true) (hcs : DigitRun cs) :
      DigitRun (c :: '_' :: cs)

/-- A sign, which may be left out, and digits with no zero in front unless it is all. -/
inductive Writes : List Char → ℤ → Prop
  | intro {sign digits : List Char} {negative : Bool} (hsign : Decimal.WritesSign sign negative)
      (hdigits : DigitRun digits) (hzero : digits.head? = some '0' → digits = ['0']) :
      Writes (sign ++ digits)
        (Decimal.withSign negative (Nat.ofDigitChars 10 (digits.filter (· != '_')) 0))

theorem DigitRun.exists_cons {cs : List Char} (h : DigitRun cs) :
    ∃ c rest, cs = c :: rest ∧ c.isDigit = true := by
  cases h with
  | one hc | digit hc | gap hc => exact ⟨_, _, rfl, hc⟩

theorem DigitRun.of_forall_isDigit {cs : List Char} (hne : cs ≠ [])
    (h : ∀ c ∈ cs, c.isDigit = true) : DigitRun cs := by
  induction cs with
  | nil => exact absurd rfl hne
  | cons c cs ih =>
    have hc := h c List.mem_cons_self
    cases cs with
    | nil => exact .one hc
    | cons d cs => exact .digit hc (ih (List.cons_ne_nil d cs) fun x hx => h x (.tail c hx))

theorem next?_of_isDigit {c : Char} (hc : c.isDigit = true) (value : ℕ) :
    next? 10 value c = some (10 * value + (c.toNat - '0'.toNat)) := by
  have hbound : c.toNat - '0'.toNat < 10 := by
    simp only [Char.isDigit, Bool.and_eq_true, decide_eq_true_eq] at hc
    have hle : c.toNat ≤ 57 := hc.2
    have hzero : '0'.toNat = 48 := rfl
    omega
  rw [next?, digit?, if_pos hc, Option.bind_some, if_pos hbound]

theorem ne_gap_of_isDigit {c : Char} (hc : c.isDigit = true) : c ≠ '_' := by
  rintro rfl
  cases hc

theorem DigitRun.readDigits?_eq {cs : List Char} (h : DigitRun cs) (value : ℕ) :
    readDigits? 10 value cs = some (Nat.ofDigitChars 10 (cs.filter (· != '_')) value) := by
  induction h generalizing value with
  | one hc =>
    simp [readDigits?, next?_of_isDigit hc, ne_gap_of_isDigit hc, Nat.ofDigitChars_cons]
  | digit hc hcs ih =>
    obtain ⟨d, rest, rfl, hd⟩ := hcs.exists_cons
    have hfirst := ne_gap_of_isDigit hc
    have hsecond := ne_gap_of_isDigit hd
    simp [readDigits?, next?_of_isDigit hc, hfirst, hsecond, ih, Nat.ofDigitChars_cons]
  | gap hc _ ih =>
    simp [readDigits?, next?_of_isDigit hc, ne_gap_of_isDigit hc, ih, Nat.ofDigitChars_cons]

theorem DigitRun.readDecimal?_eq {cs : List Char} (h : DigitRun cs)
    (hzero : cs.head? = some '0' → cs = ['0']) :
    readDecimal? cs = some (Nat.ofDigitChars 10 (cs.filter (· != '_')) 0) := by
  unfold readDecimal?
  split
  · rfl
  · next hne => exact absurd (hzero rfl) (by simpa using hne)
  · exact h.readDigits?_eq 0

theorem Writes.read?_eq {cs : List Char} {z : ℤ} (h : Writes cs z) : read? cs = some z := by
  cases h with
  | @intro sign digits negative hsign hdigits hzero =>
    have hread := hdigits.readDecimal?_eq hzero
    cases hsign with
    | plus => simp [read?, hread, Decimal.withSign]
    | minus => simp [read?, hread, Decimal.withSign]
    | absent =>
      obtain ⟨c, rest, rfl, hc⟩ := hdigits.exists_cons
      rw [List.nil_append]
      unfold read?
      split
      · next heq => rw [heq] at hzero; cases hzero rfl
      · next heq => rw [heq] at hzero; cases hzero rfl
      · next heq => rw [heq] at hzero; cases hzero rfl
      · next heq => rw [(List.cons.inj heq).1] at hc; cases hc
      · next heq => rw [(List.cons.inj heq).1] at hc; cases hc
      · rw [hread]
        rfl

theorem DigitRun.isDigit_or_gap {cs : List Char} (h : DigitRun cs) {c : Char} (hc : c ∈ cs) :
    c.isDigit = true ∨ c = '_' := by
  induction h with
  | one hd => exact .inl (List.mem_singleton.1 hc ▸ hd)
  | digit hd _ ih =>
    rcases List.mem_cons.1 hc with rfl | hc
    · exact .inl hd
    · exact ih hc
  | gap hd _ ih =>
    rcases List.mem_cons.1 hc with rfl | hc
    · exact .inl hd
    · exact (List.mem_cons.1 hc).elim .inr ih

theorem Writes.mem_chars {cs : List Char} {z : ℤ} (h : Writes cs z) {c : Char} (hc : c ∈ cs) :
    c.isDigit = true ∨ c ∈ ['_', '+', '-'] := by
  cases h with
  | intro hsign hdigits _ =>
    rcases List.mem_append.1 hc with hc | hc
    · cases hsign with
      | absent => cases hc
      | plus | minus => exact .inr (by simp [List.mem_singleton.1 hc])
    · exact (hdigits.isDigit_or_gap hc).imp_right fun heq => by simp [heq]

theorem Writes.ne_nil {cs : List Char} {z : ℤ} (h : Writes cs z) : cs ≠ [] := by
  cases h with
  | intro _ hdigits _ =>
    obtain ⟨c, rest, rfl, -⟩ := hdigits.exists_cons
    simp

theorem writes_integerChars (z : ℤ) : Writes (integerChars z) z := by
  have hdigits : ∀ c ∈ naturalChars z.natAbs, c.isDigit = true :=
    fun _ => isDigit_of_mem_naturalChars
  have hfilter : (naturalChars z.natAbs).filter (· != '_') = naturalChars z.natAbs :=
    List.filter_eq_self.2 fun c hc => bne_iff_ne.2 (ne_gap_of_isDigit (hdigits c hc))
  have hwrites := Writes.intro (Decimal.writesSign_signChars z)
    (.of_forall_isDigit (naturalChars_ne_nil _) hdigits) ?_
  · have hvalue := Decimal.withSign_natAbs_mul z 1
    rw [Nat.mul_one, Nat.cast_one, mul_one] at hvalue
    rwa [hfilter, ofDigitChars_naturalChars, hvalue] at hwrites
  · intro hhead
    by_cases hz : z.natAbs = 0
    · rw [hz, naturalChars_eq]
      rfl
    · obtain ⟨c, rest, hrest, hc⟩ := exists_naturalChars_cons hz
      rw [hrest] at hhead
      exact absurd (Option.some.inj hhead) hc

end AdaptiveCalc.Settings.Integer
