import AdaptiveCalc.Operator

/-!
# Arithmetic on 64-bit integers

Every operation computes with unbounded integers and then asks whether the result
is one of 64 bits, so a result is either exact or not given at all.
-/
namespace AdaptiveCalc.Fast

attribute [local instance (2000)] instPowNat

/-- Why there is no exact result of 64 bits. -/
inductive Failure where
  | overflow
  | divideByZero
  | inexactQuotient
  deriving DecidableEq, Repr

def Failure.message : Failure → String
  | overflow => "overflow"
  | divideByZero => "divide by zero"
  | inexactQuotient => "inexact quotient"

def Fits (z : Int) : Prop := -2 ^ (63 : Nat) ≤ z ∧ z < 2 ^ (63 : Nat)

instance (z : Int) : Decidable (Fits z) := inferInstanceAs (Decidable (_ ∧ _))

def narrow (z : Int) : Except Failure Int64 :=
  if Fits z then .ok (Int64.ofInt z) else .error .overflow

def add (a b : Int64) : Except Failure Int64 := narrow (a.toInt + b.toInt)

def sub (a b : Int64) : Except Failure Int64 := narrow (a.toInt - b.toInt)

def mul (a b : Int64) : Except Failure Int64 := narrow (a.toInt * b.toInt)

/-- Only a quotient without remainder is exact. The smallest integer divided by
minus one has none of 64 bits. -/
def div (a b : Int64) : Except Failure Int64 :=
  if b = 0 then .error .divideByZero
  else if a.toInt.tmod b.toInt ≠ 0 then .error .inexactQuotient
  else narrow (a.toInt.tdiv b.toInt)

def negate (a : Int64) : Except Failure Int64 := narrow (-a.toInt)

def apply : Operator → Int64 → Int64 → Except Failure Int64
  | .add => add
  | .sub => sub
  | .mul => mul
  | .div => div

theorem fits_toInt (a : Int64) : Fits a.toInt := ⟨a.le_toInt, a.toInt_lt⟩

theorem toInt_of_narrow {z : Int} {n : Int64} (h : narrow z = .ok n) : n.toInt = z := by
  unfold narrow at h
  split at h
  · next hz => cases h; exact Int64.toInt_ofInt_of_le hz.1 hz.2
  · cases h

@[simp] theorem narrow_toInt (a : Int64) : narrow a.toInt = .ok a := by
  simp [narrow, fits_toInt]

end AdaptiveCalc.Fast
