import AdaptiveCalc.Decimal.Division
import AdaptiveCalc.Decimal.Text
import AdaptiveCalc.Error
import AdaptiveCalc.Fast

/-!
# Values

A value is an integer of 64 bits or a decimal. Two integers give an integer where
the exact result is one of 64 bits; everything else is computed on decimals, and a
decimal never becomes an integer again, not even one that stands for an integer.
-/
namespace AdaptiveCalc

inductive Value where
  | fast (n : Int64)
  | precise (d : Decimal)
  deriving DecidableEq, Repr

/-- Arithmetic on decimals. Only a division by zero fails, whichever decimal of
zero it is by, and only a division rounds. -/
def Decimal.apply (op : Operator) (precision : Nat) (a b : Decimal) : Except EvalError Decimal :=
  match op with
  | .add => .ok (a.add b)
  | .sub => .ok (a.sub b)
  | .mul => .ok (a.mul b)
  | .div => if b.digits = 0 then .error .divisionByZero else .ok (divide precision a b)

namespace Value

/-- The decimal of the same number; an integer has scale zero. -/
def toDecimal : Value → Decimal
  | fast n => .ofInt n.toInt
  | precise d => d

def toFast? : Value → Option Int64
  | fast n => some n
  | precise _ => none

def isFast (v : Value) : Bool := v.toFast?.isSome

@[simp] theorem toDecimal_fast (n : Int64) : (fast n).toDecimal = .ofInt n.toInt := rfl
@[simp] theorem toDecimal_precise (d : Decimal) : (precise d).toDecimal = d := rfl
@[simp] theorem isFast_fast (n : Int64) : (fast n).isFast = true := rfl
@[simp] theorem isFast_precise (d : Decimal) : (precise d).isFast = false := rfl

def Same : Value → Value → Prop
  | fast a, fast b => a = b
  | precise a, precise b => a.Same b
  | _, _ => False

instance : (v w : Value) → Decidable (Same v w)
  | fast a, fast b => inferInstanceAs (Decidable (a = b))
  | precise a, precise b => inferInstanceAs (Decidable (a.Same b))
  | fast _, precise _ => .isFalse id
  | precise _, fast _ => .isFalse id

def applyPrecise (op : Operator) (precision : Nat) (v w : Value) : Except EvalError Value :=
  (Decimal.apply op precision v.toDecimal w.toDecimal).map precise

/-- The operation on integers where both operands are integers and it succeeds, and
on decimals otherwise. -/
def apply (op : Operator) (precision : Nat) (v w : Value) : Except EvalError Value :=
  match v, w with
  | fast a, fast b =>
    match Fast.apply op a b with
    | .ok n => .ok (fast n)
    | .error _ => applyPrecise op precision v w
  | _, _ => applyPrecise op precision v w

/-- An operation that cannot fail on decimals. -/
def widening (onFast : Int64 → Int64 → Except Fast.Failure Int64)
    (onDecimal : Decimal → Decimal → Decimal) (v w : Value) : Value :=
  match v, w with
  | fast a, fast b =>
    match onFast a b with
    | .ok n => fast n
    | .error _ => precise (onDecimal v.toDecimal w.toDecimal)
  | _, _ => precise (onDecimal v.toDecimal w.toDecimal)

def add : Value → Value → Value := widening Fast.add Decimal.add

def sub : Value → Value → Value := widening Fast.sub Decimal.sub

def mul : Value → Value → Value := widening Fast.mul Decimal.mul

def div (precision : Nat) (v w : Value) : Except EvalError Value := apply .div precision v w

def negate : Value → Value
  | fast n =>
    match Fast.negate n with
    | .ok m => fast m
    | .error _ => precise (Decimal.ofInt n.toInt).neg
  | precise d => precise d.neg

/-- The text of the number, which does not show the kind of the value. -/
def chars : Value → List Char
  | fast n => integerChars n.toInt
  | precise d => d.canonicalChars

def text (v : Value) : String := String.ofList v.chars

end Value
end AdaptiveCalc
