import AdaptiveCalc.Decimal.Numeral
import Mathlib.Data.Int.Notation
import Mathlib.Data.List.TakeWhile
import Mathlib.Data.Nat.Notation

/-!
# The grammar of numerals

How the text of a decimal is put together, said without a reader: the parts that may stand
one behind the other, and what each of them contributes. Reading accepts these texts and no
others, as long as the scale is one of 64 bits. Main statement: `read?_eq_some_iff`.
-/
namespace AdaptiveCalc

theorem span_append {α : Type} {p : α → Bool} {xs ys : List α} (hxs : ∀ x ∈ xs, p x = true)
    (hys : ∀ y ∈ ys.head?, p y = false) :
    (xs ++ ys).takeWhile p = xs ∧ (xs ++ ys).dropWhile p = ys := by
  rw [List.takeWhile_append_of_pos hxs, List.dropWhile_append_of_pos hxs]
  cases ys with
  | nil => simp
  | cons y ys => simp [hys y rfl]

namespace Decimal

/-- A sign, which may be left out; `true` is minus. -/
inductive WritesSign : List Char → Bool → Prop
  | absent : WritesSign [] false
  | plus : WritesSign ['+'] false
  | minus : WritesSign ['-'] true

/-- A sign and a digit, and then more digits, with gaps anywhere among them. -/
inductive WritesDigits : List Char → ℤ → Prop
  | intro {sign : List Char} {negative : Bool} {c : Char} {rest : List Char}
      (hsign : WritesSign sign negative) (hc : c.isDigit = true)
      (hrest : ∀ x ∈ rest, x.isDigit = true ∨ x = '_') :
      WritesDigits (sign ++ c :: rest)
        (withSign negative (Nat.ofDigitChars 10 (c :: rest.filter (· != '_')) 0))

/-- A text, the same without its first point, and the number of places behind the point. A
gap is no place, a sign is one. -/
inductive Unpoints : List Char → List Char → ℕ → Prop
  | absent {cs : List Char} (h : '.' ∉ cs) : Unpoints cs cs 0
  | present {whole fraction : List Char} (h : '.' ∉ whole) :
      Unpoints (whole ++ '.' :: fraction) (whole ++ fraction) (fraction.countP (· != '_'))

/-- Nothing, or a mark with a sign and at least one digit, without gaps. -/
inductive WritesExponent : List Char → ℤ → Prop
  | absent : WritesExponent [] 0
  | present {mark : Char} {sign digits : List Char} {negative : Bool}
      (hmark : mark = 'e' ∨ mark = 'E') (hsign : WritesSign sign negative) (hne : digits ≠ [])
      (hdigits : ∀ c ∈ digits, c.isDigit = true) :
      WritesExponent (mark :: (sign ++ digits))
        (withSign negative (Nat.ofDigitChars 10 digits 0))

/-- The text writes these digits at this scale. The point is taken out before the sign is
looked at, so a sign may stand behind it. -/
inductive Writes : List Char → Decimal → Prop
  | intro {base unpointed tail : List Char} {places : ℕ} {digits exponent : ℤ}
      (hbase : ∀ c ∈ base, c ≠ 'e' ∧ c ≠ 'E') (hpoint : Unpoints base unpointed places)
      (hdigits : WritesDigits unpointed digits) (htail : WritesExponent tail exponent) :
      Writes (base ++ tail) ⟨digits, places - exponent⟩

theorem splitSign_append {sign rest : List Char} {negative : Bool} {c : Char}
    (hsign : WritesSign sign negative) (hc : c.isDigit = true) :
    splitSign (sign ++ c :: rest) = (negative, c :: rest) := by
  cases hsign with
  | plus => rfl
  | minus => rfl
  | absent =>
    rw [List.nil_append]
    unfold splitSign
    split
    · next heq =>
      cases heq
      cases hc
    · next heq =>
      cases heq
      cases hc
    · rfl

theorem exists_sign (cs : List Char) :
    ∃ sign, WritesSign sign (splitSign cs).1 ∧ cs = sign ++ (splitSign cs).2 := by
  unfold splitSign
  split
  · exact ⟨_, .minus, rfl⟩
  · exact ⟨_, .plus, rfl⟩
  · exact ⟨_, .absent, rfl⟩

theorem isDigitOrGap_iff {c : Char} : isDigitOrGap c = true ↔ c.isDigit = true ∨ c = '_' := by
  simp [isDigitOrGap]

theorem readDigits?_eq_some_iff {cs : List Char} {n : ℤ} :
    readDigits? cs = some n ↔ WritesDigits cs n := by
  constructor
  · intro h
    obtain ⟨sign, hsign, hcs⟩ := exists_sign cs
    unfold readDigits? at h
    generalize splitSign cs = split at h hsign hcs
    obtain ⟨negative, _ | ⟨c, rest⟩⟩ := split
    · cases h
    · simp only [Option.ite_none_right_eq_some, Option.some.injEq] at h
      obtain ⟨⟨hc, hrest⟩, rfl⟩ := h
      rw [hcs, naturalOf_eq]
      refine .intro hsign hc fun x hx => ?_
      exact isDigitOrGap_iff.1 (List.all_eq_true.1 hrest x hx)
  · intro h
    cases h with
    | intro hsign hc hrest =>
      have hall := List.all_eq_true.2 fun x hx => isDigitOrGap_iff.2 (hrest x hx)
      simp [readDigits?, splitSign_append hsign hc, hc, hall]

theorem Unpoints.removePoint_eq {cs unpointed : List Char} {places : ℕ}
    (h : Unpoints cs unpointed places) : removePoint cs = (unpointed, places) := by
  cases h with
  | absent h =>
    have hne : ∀ c ∈ cs, (c != '.') = true := fun c hc => bne_iff_ne.2 fun heq => h (heq ▸ hc)
    simp [removePoint, List.takeWhile_eq_self_iff.2 hne, List.dropWhile_eq_nil_iff.2 hne]
  | @present whole fraction h =>
    have hne : ∀ c ∈ whole, (c != '.') = true := fun c hc => bne_iff_ne.2 fun heq => h (heq ▸ hc)
    simp [removePoint, List.takeWhile_append_of_pos hne, List.dropWhile_append_of_pos hne]

theorem unpoints_removePoint (cs : List Char) :
    Unpoints cs (removePoint cs).1 (removePoint cs).2 := by
  by_cases hpoint : '.' ∈ cs
  · obtain ⟨whole, fraction, rfl, h⟩ := List.eq_append_cons_of_mem hpoint
    have hunpoints : Unpoints (whole ++ '.' :: fraction) _ _ := .present h
    rwa [hunpoints.removePoint_eq]
  · have hunpoints := Unpoints.absent hpoint
    rwa [hunpoints.removePoint_eq]

theorem isExponentMark_iff {c : Char} : isExponentMark c = true ↔ c = 'e' ∨ c = 'E' := by
  simp [isExponentMark]

def tailExponent? : List Char → Option ℤ
  | [] => some 0
  | _ :: cs => readExponent? cs

def readAny? (cs : List Char) : Option Decimal :=
  let base := cs.takeWhile (!isExponentMark ·)
  (tailExponent? (cs.dropWhile (!isExponentMark ·))).bind fun exponent =>
    (readDigits? (removePoint base).1).map fun digits =>
      ⟨digits, (removePoint base).2 - exponent⟩

theorem tailExponent?_eq_some_iff {tail : List Char} {e : ℤ}
    (hmark : ∀ c ∈ tail.head?, isExponentMark c = true) :
    tailExponent? tail = some e ↔ WritesExponent tail e := by
  constructor
  · intro h
    cases tail with
    | nil =>
      cases h
      exact .absent
    | cons mark cs =>
      obtain ⟨sign, hsign, hcs⟩ := exists_sign cs
      simp only [tailExponent?, readExponent?, Option.ite_none_right_eq_some,
        Option.some.injEq] at h
      obtain ⟨⟨hne, hdigits⟩, rfl⟩ := h
      have htail := WritesExponent.present (isExponentMark_iff.1 (hmark mark rfl)) hsign hne
        (List.all_eq_true.1 hdigits)
      rw [naturalOf_eq]
      rwa [← hcs] at htail
  · intro h
    cases h with
    | absent => rfl
    | @present mark sign digits negative _ hsign hne hdigits =>
      obtain ⟨c, rest, rfl⟩ := List.exists_cons_of_ne_nil hne
      have hsplit : splitSign (sign ++ c :: rest) = _ :=
        splitSign_append hsign (hdigits c List.mem_cons_self)
      have hall := List.all_eq_true.2 hdigits
      simp [tailExponent?, readExponent?, hsplit, hall]

theorem WritesExponent.mark {tail : List Char} {e : ℤ} (h : WritesExponent tail e) :
    ∀ c ∈ tail.head?, isExponentMark c = true := by
  cases h with
  | absent => simp
  | present hmark => simpa using isExponentMark_iff.2 hmark

theorem takeWhile_base {base tail : List Char} (hbase : ∀ c ∈ base, c ≠ 'e' ∧ c ≠ 'E')
    (hmark : ∀ c ∈ tail.head?, isExponentMark c = true) :
    (base ++ tail).takeWhile (!isExponentMark ·) = base ∧
      (base ++ tail).dropWhile (!isExponentMark ·) = tail := by
  have hpos : ∀ c ∈ base, (!isExponentMark c) = true := fun c hc => by
    simpa [isExponentMark] using hbase c hc
  exact span_append hpos fun c hc => by simp [hmark c hc]

theorem readAny?_eq_some_iff {cs : List Char} {d : Decimal} :
    readAny? cs = some d ↔ Writes cs d := by
  constructor
  · intro h
    have hmark : ∀ c ∈ (cs.dropWhile (!isExponentMark ·)).head?, isExponentMark c = true := by
      intro c hc
      have hhead := List.head?_dropWhile_not (!isExponentMark ·) cs
      rw [Option.mem_def.1 hc] at hhead
      simpa using hhead
    simp only [readAny?, Option.bind_eq_some_iff, Option.map_eq_some_iff] at h
    obtain ⟨exponent, hexponent, digits, hdigits, rfl⟩ := h
    have hbase : ∀ c ∈ cs.takeWhile (!isExponentMark ·), c ≠ 'e' ∧ c ≠ 'E' := fun c hc => by
      simpa [isExponentMark] using List.mem_takeWhile_imp hc
    have hwrites := Writes.intro hbase (unpoints_removePoint _)
      (readDigits?_eq_some_iff.1 hdigits) ((tailExponent?_eq_some_iff hmark).1 hexponent)
    rwa [List.takeWhile_append_dropWhile] at hwrites
  · intro h
    cases h with
    | intro hbase hpoint hdigits htail =>
      obtain ⟨htake, hdrop⟩ := takeWhile_base hbase htail.mark
      simp [readAny?, htake, hdrop, (tailExponent?_eq_some_iff htail.mark).2 htail,
        hpoint.removePoint_eq, readDigits?_eq_some_iff.2 hdigits]

theorem Writes.unique {cs : List Char} {d e : Decimal} (hd : Writes cs d) (he : Writes cs e) :
    d = e :=
  Option.some.inj ((readAny?_eq_some_iff.2 hd).symm.trans (readAny?_eq_some_iff.2 he))

theorem read?_eq_bind (cs : List Char) :
    read? cs = (readAny? cs).bind fun d => if ScaleFits d.scale then some d else none := by
  simp only [read?, readAny?]
  generalize removePoint (cs.takeWhile (!isExponentMark ·)) = base
  have hany (exponent? : Option ℤ) :
      (exponent?.bind fun exponent => (readDigits? base.1).bind fun digits =>
        if ScaleFits (base.2 - exponent) then some ⟨digits, base.2 - exponent⟩ else none) =
      (exponent?.bind fun exponent => (readDigits? base.1).map fun digits =>
        (⟨digits, base.2 - exponent⟩ : Decimal)).bind fun d =>
          if ScaleFits d.scale then some d else none := by
    cases exponent? with
    | none => rfl
    | some exponent => cases readDigits? base.1 <;> rfl
  cases cs.dropWhile (!isExponentMark ·) with
  | nil => exact hany (some 0)
  | cons mark rest => exact hany (readExponent? rest)

/-- Reading accepts what the grammar puts together and nothing else. -/
theorem read?_eq_some_iff {cs : List Char} {d : Decimal} :
    read? cs = some d ↔ Writes cs d ∧ ScaleFits d.scale := by
  rw [read?_eq_bind, ← readAny?_eq_some_iff]
  constructor
  · intro h
    simp only [Option.bind_eq_some_iff, Option.ite_none_right_eq_some, Option.some.injEq] at h
    obtain ⟨e, he, hscale, rfl⟩ := h
    exact ⟨he, hscale⟩
  · rintro ⟨hd, hscale⟩
    rw [hd, Option.bind_some, if_pos hscale]

end Decimal
end AdaptiveCalc
