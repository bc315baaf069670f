import AdaptiveCalc.Decimal.Basic

/-!
# The plain text of a decimal

Digits, with a minus sign in front and a point among them where they are needed,
and never an exponent. The text of a decimal shows its digits and scale as they
are, trailing zeros included; `canonicalChars` normalizes first, so that decimals
of one number have one text.
-/
namespace AdaptiveCalc

def signChars (n : Int) : List Char := if n < 0 then ['-'] else []

def integerChars (n : Int) : List Char := signChars n ++ naturalChars n.natAbs

namespace Decimal

def paddedChars (width n : Nat) : List Char :=
  let digits := naturalChars n
  List.replicate (width - digits.length) '0' ++ digits

/-- A number of units of `10 ^ (-places)`: exactly `places` digits follow the
point, and at least one stands before it. -/
def fractionChars (n places : Nat) : List Char :=
  let digits := paddedChars (places + 1) n
  digits.take (digits.length - places) ++ '.' :: digits.drop (digits.length - places)

/-- The text of the digits and scale as they are. A scale that is not positive
stands for zeros behind the digits. -/
def plainChars (a : Decimal) : List Char :=
  signChars a.digits ++
    if a.scale ≤ 0 then
      naturalChars a.digits.natAbs ++ List.replicate (-a.scale).toNat '0'
    else fractionChars a.digits.natAbs a.scale.toNat

def canonicalChars (a : Decimal) : List Char := a.normalize.plainChars

end Decimal
end AdaptiveCalc
