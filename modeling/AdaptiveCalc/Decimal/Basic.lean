import AdaptiveCalc.Decimal.Digits

/-!
# Decimal numbers

A decimal is an integer of digits together with a scale. Both are kept as they
were given, so one number has many decimals: `1.5` and `1.50` differ here and
agree after `normalize`. Sums, differences and products are exact.

Scales may be enormous. An operand equal to zero never takes part in the
alignment of scales, and two decimals are compared after normalizing, so neither
zero operands nor comparisons write out the zeros that a scale stands for.
-/
namespace AdaptiveCalc

attribute [local instance (2000)] instPowNat

/-- The number `digits * 10 ^ (-scale)`. -/
structure Decimal where
  digits : Int
  scale : Int
  deriving DecidableEq, Repr, Inhabited

namespace Decimal

def ofInt (n : Int) : Decimal := ⟨n, 0⟩

@[simp] theorem digits_ofInt (n : Int) : (ofInt n).digits = n := rfl
@[simp] theorem scale_ofInt (n : Int) : (ofInt n).scale = 0 := rfl

/-- The digits a decimal is written with, its sign and point apart. -/
def digitCount (a : Decimal) : Nat := lengthOf a.digits.natAbs

def neg (a : Decimal) : Decimal := ⟨-a.digits, a.scale⟩

@[simp] theorem digits_neg (a : Decimal) : a.neg.digits = -a.digits := rfl
@[simp] theorem scale_neg (a : Decimal) : a.neg.scale = a.scale := rfl

/-- The digits of `a` in units of `10 ^ (-s)`. No digit is lost for `a.scale ≤ s`. -/
def digitsAt (a : Decimal) (s : Int) : Int := a.digits * 10 ^ (s - a.scale).toNat

/-- The exact sum, at the finer of the two scales. A zero operand leaves the
other one as it is. -/
def add (a b : Decimal) : Decimal :=
  if b.digits = 0 then a
  else if a.digits = 0 then b
  else
    let s := max a.scale b.scale
    ⟨a.digitsAt s + b.digitsAt s, s⟩

def sub (a b : Decimal) : Decimal := a.add b.neg

def mul (a b : Decimal) : Decimal := ⟨a.digits * b.digits, a.scale + b.scale⟩

/-- Takes the zeros off the end of a number and adds how many they were to `count`.
It tries to take `step` of them at once, twice as many when there are so many and
half as many when there are not. Zero stays as it is. -/
def stripZeros (step n count : Nat) : Nat × Nat :=
  if n ≠ 0 ∧ 0 < step ∧ n % 10 ^ step = 0 then
    stripZeros (2 * step) (n / 10 ^ step) (count + step)
  else if step ≤ 1 then (n, count)
  else stripZeros (step / 2) n count
termination_by (n, step)
decreasing_by
  · rename_i h
    exact Prod.Lex.left _ _ (Nat.div_lt_self (Nat.pos_of_ne_zero h.1)
      (Nat.one_lt_pow (Nat.pos_iff_ne_zero.1 h.2.1) (by decide)))
  · exact Prod.Lex.right _ (by omega)

theorem stripZeros_mul (step n count : Nat) :
    count ≤ (stripZeros step n count).2 ∧
      (stripZeros step n count).1 * 10 ^ ((stripZeros step n count).2 - count) = n := by
  fun_induction stripZeros step n count with
  | case1 step n count h ih =>
    obtain ⟨hle, hmul⟩ := ih
    refine ⟨by omega, ?_⟩
    have hd : 10 ^ step * (n / 10 ^ step) = n := Nat.mul_div_cancel' (Nat.dvd_of_mod_eq_zero h.2.2)
    rw [show ∀ m, count + step ≤ m → m - count = m - (count + step) + step from fun m _ => by omega,
      Nat.pow_add, ← Nat.mul_assoc, hmul, Nat.mul_comm, hd]
    exact hle
  | case2 => simp
  | case3 step n count h hs ih => exact ih

theorem stripZeros_mod {step n count : Nat} (hn : n ≠ 0) (hs : 0 < step) :
    (stripZeros step n count).1 % 10 ≠ 0 := by
  fun_induction stripZeros step n count with
  | case1 step n count h ih =>
    refine ih ?_ (by omega)
    intro hz
    have hd := Nat.mul_div_cancel' (Nat.dvd_of_mod_eq_zero h.2.2)
    rw [hz, Nat.mul_zero] at hd
    exact hn hd.symm
  | case2 step n count h h₁ =>
    obtain rfl : step = 1 := by omega
    simpa [hn] using h
  | case3 step n count h h₁ ih => exact ih hn (by omega)

/-- The decimal of the same number that ends in no zero digit; the one of zero
has scale zero. -/
def normalize (a : Decimal) : Decimal :=
  if a.digits = 0 then ⟨0, 0⟩
  else
    let (n, zeros) := stripZeros 1 a.digits.natAbs 0
    ⟨a.digits.sign * n, a.scale - zeros⟩

def Same (a b : Decimal) : Prop := a.normalize = b.normalize

instance (a b : Decimal) : Decidable (Same a b) :=
  inferInstanceAs (Decidable (a.normalize = b.normalize))

end Decimal
end AdaptiveCalc
