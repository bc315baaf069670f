import AdaptiveCalc.Decimal.Basic

/-!
# Reading decimals

A numeral is an optional sign, digits with at most one point among them, and an
optional exponent. Underscores may stand anywhere behind the first digit, and they
count for nothing. Every digit that is written is kept: `1.50` has the digits 150
and the scale 2.

The point is taken out before the sign is looked at, and a sign behind it counts
as a place of the fraction: `.-5` is minus five hundredths.
-/
namespace AdaptiveCalc

attribute [local instance (2000)] instPowNat

namespace Decimal

def isExponentMark (c : Char) : Bool := c == 'e' || c == 'E'

def isDigitOrGap (c : Char) : Bool := c.isDigit || c == '_'

/-- Takes a sign off the front; `true` is minus. -/
def splitSign : List Char → Bool × List Char
  | '-' :: cs => (true, cs)
  | '+' :: cs => (false, cs)
  | cs => (false, cs)

def withSign (negative : Bool) (n : Nat) : Int := if negative then -n else n

def readExponent? (cs : List Char) : Option Int :=
  let (negative, digits) := splitSign cs
  if digits ≠ [] ∧ digits.all Char.isDigit then
    some (withSign negative (naturalOf digits))
  else none

def readDigits? (cs : List Char) : Option Int :=
  match splitSign cs with
  | (_, []) => none
  | (negative, c :: rest) =>
    if c.isDigit ∧ rest.all isDigitOrGap then
      some (withSign negative (naturalOf (c :: rest.filter (· != '_'))))
    else none

/-- Takes the first point out of a text. The second part is the number of
characters behind it that are not underscores. -/
def removePoint (cs : List Char) : List Char × Nat :=
  let whole := cs.takeWhile (· != '.')
  let fraction := (cs.dropWhile (· != '.')).drop 1
  (whole ++ fraction, fraction.countP (· != '_'))

/-- Scales are 64-bit numbers. -/
def ScaleFits (scale : Int) : Prop := -2 ^ (63 : Nat) ≤ scale ∧ scale < 2 ^ (63 : Nat)

instance (scale : Int) : Decidable (ScaleFits scale) :=
  inferInstanceAs (Decidable (_ ∧ _))

/-- The decimal that a text without surrounding blanks writes. -/
def read? (cs : List Char) : Option Decimal := do
  let base := cs.takeWhile (!isExponentMark ·)
  let exponent ←
    match cs.dropWhile (!isExponentMark ·) with
    | [] => some 0
    | _ :: rest => readExponent? rest
  let (unpointed, places) := removePoint base
  let digits ← readDigits? unpointed
  let scale := places - exponent
  if ScaleFits scale then some ⟨digits, scale⟩ else none

end Decimal
end AdaptiveCalc
