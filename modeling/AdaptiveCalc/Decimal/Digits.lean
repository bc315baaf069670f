/-!
# The decimal digits of a natural number

How many digits a number has, which they are, and the number that digits write. There
may be very many of them, so the length is estimated from the binary length before it
is made exact, and digits are cut in halves instead of being taken one by one. Main
statements: `lengthOf_eq`, `naturalChars_eq` and `naturalOf_eq`, which say the same in
terms of `Nat.toDigits` and `Nat.ofDigitChars`.
-/
namespace AdaptiveCalc

-- Powers are those of core, whichever others are known.
attribute [local instance (2000)] instPowNat

/-- The least number of digits, `k` or more, that `n` can be written with. -/
def lengthFrom (n k : Nat) : Nat := if n < 10 ^ k then k else lengthFrom n (k + 1)
termination_by n - k
decreasing_by have := Nat.lt_pow_self (n := k) (show 1 < 10 by decide); omega

/-- How many decimal digits a natural number is written with; zero has one. A binary
digit is worth less than `1233 / 4096` decimal ones. -/
def lengthOf (n : Nat) : Nat := lengthFrom n (n.log2 * 1233 / 4096 + 1)

theorem lengthFrom_eq {n k : Nat} (hk : 0 < k) (h : k ≤ (Nat.toDigits 10 n).length) :
    lengthFrom n k = (Nat.toDigits 10 n).length := by
  fun_induction lengthFrom n k with
  | case1 k hn =>
    have := (Nat.length_toDigits_le_iff (by decide) hk).2 hn
    omega
  | case2 k hn ih =>
    refine ih (by omega) ?_
    have := mt (Nat.length_toDigits_le_iff (b := 10) (by decide) hk).1 hn
    omega

theorem ten_pow_le_two_pow {p q : Nat} (hq : 0 < q) (h : 10 ^ p ≤ 2 ^ q) (l : Nat) :
    10 ^ (l * p / q) ≤ 2 ^ l := by
  refine (Nat.pow_le_pow_iff_left (Nat.pos_iff_ne_zero.1 hq)).1 ?_
  calc (10 ^ (l * p / q)) ^ q
      = 10 ^ (l * p / q * q) := by rw [← Nat.pow_mul]
    _ ≤ 10 ^ (p * l) :=
      Nat.pow_le_pow_right (by decide) (Nat.mul_comm p l ▸ Nat.div_mul_le_self ..)
    _ = (10 ^ p) ^ l := by rw [Nat.pow_mul]
    _ ≤ (2 ^ q) ^ l := Nat.pow_le_pow_left h l
    _ = (2 ^ l) ^ q := by rw [← Nat.pow_mul, ← Nat.pow_mul, Nat.mul_comm]

theorem estimate_lt_length (n : Nat) :
    n.log2 * 1233 / 4096 < (Nat.toDigits 10 n).length := by
  by_cases hn : n = 0
  · subst hn; decide
  by_cases he : n.log2 * 1233 / 4096 = 0
  · rw [he]; exact Nat.length_toDigits_pos
  rw [← Nat.not_le, Nat.length_toDigits_le_iff (by decide) (by omega), Nat.not_lt]
  have h := ten_pow_le_two_pow (p := 1233) (q := 4096) (by decide) (by decide +kernel) n.log2
  exact Nat.le_trans h (Nat.log2_self_le hn)

theorem lengthOf_eq (n : Nat) : lengthOf n = (Nat.toDigits 10 n).length :=
  lengthFrom_eq (by omega) (estimate_lt_length n)

theorem lengthOf_pos (n : Nat) : 0 < lengthOf n := lengthOf_eq n ▸ Nat.length_toDigits_pos

theorem lengthOf_le_iff {n k : Nat} (hk : 0 < k) : lengthOf n ≤ k ↔ n < 10 ^ k :=
  lengthOf_eq n ▸ Nat.length_toDigits_le_iff (by decide) hk

/-- The last `width` digits of a number, with zeros in front where it has fewer. -/
def digitsOf : Nat → Nat → List Char
  | 0, _ => []
  | width + 1, n => digitsOf width (n / 10) ++ [(n % 10).digitChar]

def lastDigits (width n : Nat) (rest : List Char) : List Char :=
  match width with
  | 0 => rest
  | 1 => (n % 10).digitChar :: rest
  | width + 2 =>
    lastDigits (width + 1 - width / 2) (n / 10 ^ (width / 2 + 1))
      (lastDigits (width / 2 + 1) (n % 10 ^ (width / 2 + 1)) rest)
termination_by width

/-- The decimal digits of a natural number, the first one not zero unless it is
the only one. -/
def naturalChars (n : Nat) : List Char := lastDigits (lengthOf n) n []

theorem digitsOf_add (a b n : Nat) :
    digitsOf (a + b) n = digitsOf a (n / 10 ^ b) ++ digitsOf b n := by
  induction b generalizing n with
  | zero => simp [digitsOf]
  | succ b ih =>
    rw [← Nat.add_assoc, digitsOf, digitsOf, ih, Nat.div_div_eq_div_mul, ← Nat.pow_succ']
    simp

theorem digitsOf_mod (b n : Nat) : digitsOf b (n % 10 ^ b) = digitsOf b n := by
  induction b generalizing n with
  | zero => rfl
  | succ b ih =>
    rw [digitsOf, digitsOf, Nat.pow_succ', Nat.mod_mul_right_div_self, ih,
      Nat.mod_mod_of_dvd _ (Nat.dvd_mul_right ..)]

theorem lastDigits_eq (width n : Nat) (rest : List Char) :
    lastDigits width n rest = digitsOf width n ++ rest := by
  fun_induction lastDigits width n rest with
  | case1 => rfl
  | case2 => rfl
  | case3 n rest width inner outer =>
    have h : width + 2 = width + 1 - width / 2 + (width / 2 + 1) := by omega
    rw [outer, inner, digitsOf_mod, ← List.append_assoc, ← digitsOf_add, ← h]

theorem toDigits_eq_digitsOf (n : Nat) :
    Nat.toDigits 10 n = digitsOf (Nat.toDigits 10 n).length n := by
  induction n using Nat.strongRecOn with
  | ind n ih =>
    rw [Nat.toDigits_eq_if (by decide)]
    split
    · next h => simp [digitsOf, Nat.mod_eq_of_lt h]
    · rw [List.length_append, List.length_singleton, digitsOf, ← ih _ (by omega)]

@[simp] theorem naturalChars_eq (n : Nat) : naturalChars n = Nat.toDigits 10 n := by
  rw [naturalChars, lastDigits_eq, lengthOf_eq, List.append_nil, ← toDigits_eq_digitsOf]

def naturalOf (cs : List Char) : Nat :=
  if cs.length ≤ 16 then Nat.ofDigitChars 10 cs 0
  else
    naturalOf (cs.take (cs.length / 2)) * 10 ^ (cs.length - cs.length / 2) +
      naturalOf (cs.drop (cs.length / 2))
termination_by cs.length
decreasing_by
  · simp only [List.length_take]; omega
  · simp only [List.length_drop]; omega

@[simp] theorem naturalOf_eq (cs : List Char) : naturalOf cs = Nat.ofDigitChars 10 cs 0 := by
  fun_induction naturalOf cs with
  | case1 => rfl
  | case2 cs h ih₁ ih₂ =>
    rw [ih₁, ih₂, Nat.mul_comm, ← List.length_drop, ← Nat.ofDigitChars_eq_ofDigitChars_zero,
      ← Nat.ofDigitChars_append, List.take_append_drop]

end AdaptiveCalc
