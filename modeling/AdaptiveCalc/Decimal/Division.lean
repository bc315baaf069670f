import AdaptiveCalc.Decimal.Basic

/-!
# Rounding and division

A quotient of decimals seldom has finitely many digits, so division rounds: once,
to a number of significant digits, a half going to the even neighbour. The
quotient is first cut off behind at least one digit more than asked for. Whatever
the cut leaves over is remembered as one last digit `1`, which tells a quotient
just above a half from the half itself; the digits so obtained are rounded.
-/
namespace AdaptiveCalc

attribute [local instance (2000)] instPowNat

/-- `n / unit` to the nearest whole number, a half to the even neighbour. -/
def roundHalfEven (n unit : Nat) : Nat :=
  let whole := n / unit
  let rest := n % unit
  if unit < 2 * rest ∨ (2 * rest = unit ∧ whole % 2 = 1) then whole + 1 else whole

namespace Decimal

/-- Keeps `precision` significant digits; a decimal that has no more of them
stays as it is. A carry may leave one digit more, which is then a zero. -/
def round (precision : Nat) (a : Decimal) : Decimal :=
  let excess := a.digitCount - precision
  if excess = 0 then a
  else ⟨a.digits.sign * roundHalfEven a.digits.natAbs (10 ^ excess), a.scale - excess⟩

/-- How many zeros are written behind the digits of `a`, so that their quotient by
the digits of `b` has more than `precision` digits. -/
def quotientShift (precision : Nat) (a b : Decimal) : Nat :=
  precision + 1 + b.digitCount - a.digitCount

/-- The dividend of the long division: the digits of `a` and then the zeros. Their
number is a 32-bit count. -/
def dividend (precision : Nat) (a b : Decimal) : Nat :=
  a.digits.natAbs * 10 ^ (quotientShift precision a b % 2 ^ (32 : Nat))

/-- The quotient of two natural numbers, with a digit `1` behind it when the
division leaves a remainder, and how many digits were so added. -/
def stickyQuotient (n d : Nat) : Nat × Nat :=
  if n % d = 0 then (n / d, 0) else (n / d * 10 + 1, 1)

/-- `a / b` to `precision` significant digits, for a divisor other than zero. -/
def divide (precision : Nat) (a b : Decimal) : Decimal :=
  let (digits, extra) := stickyQuotient (dividend precision a b) b.digits.natAbs
  let negative := decide (a.digits < 0) != decide (b.digits < 0)
  round precision
    ⟨if negative then -digits else digits,
      a.scale - b.scale + quotientShift precision a b + extra⟩

end Decimal
end AdaptiveCalc
