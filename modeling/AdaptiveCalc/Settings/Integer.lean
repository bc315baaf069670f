/-!
# Integers of a settings document

An integer is decimal with an optional sign and without needless zeros in front, or
it is hexadecimal, octal or binary behind `0x`, `0o` or `0b`, without a sign and with
any zeros. A single underscore may stand between two digits.
-/
namespace AdaptiveCalc.Settings.Integer

def digit? (c : Char) : Option Nat :=
  if c.isDigit then some (c.toNat - '0'.toNat)
  else if 'a' ≤ c ∧ c ≤ 'f' then some (c.toNat - 'a'.toNat + 10)
  else if 'A' ≤ c ∧ c ≤ 'F' then some (c.toNat - 'A'.toNat + 10)
  else none

/-- Puts one more digit of a base behind digits that are worth `value`. -/
def next? (base value : Nat) (c : Char) : Option Nat :=
  (digit? c).bind fun d => if d < base then some (base * value + d) else none

/-- Digits of a base with single underscores between them, behind digits that are
worth `value`. -/
def readDigits? (base value : Nat) : List Char → Option Nat
  | [] => none
  | [c] => next? base value c
  | c :: '_' :: rest => (next? base value c).bind (readDigits? base · rest)
  | c :: rest => (next? base value c).bind (readDigits? base · rest)

/-- Zero is the only decimal number that begins with the digit zero. -/
def readDecimal? : List Char → Option Nat
  | ['0'] => some 0
  | '0' :: _ => none
  | cs => readDigits? 10 0 cs

def read? : List Char → Option Int
  | '0' :: 'x' :: cs => (readDigits? 16 0 cs).map Int.ofNat
  | '0' :: 'o' :: cs => (readDigits? 8 0 cs).map Int.ofNat
  | '0' :: 'b' :: cs => (readDigits? 2 0 cs).map Int.ofNat
  | '+' :: cs => (readDecimal? cs).map Int.ofNat
  | '-' :: cs => (readDecimal? cs).map fun n => -Int.ofNat n
  | cs => (readDecimal? cs).map Int.ofNat

end AdaptiveCalc.Settings.Integer
