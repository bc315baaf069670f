import AdaptiveCalc.Builder
import Mathlib.Data.Nat.Notation

/-!
# Calls on a builder

What can be asked of a builder, and the builder as a sequence of calls leaves it. A call
that fails gives no node and leaves the builder as it was.
-/
namespace AdaptiveCalc
namespace Builder

inductive Call where
  | number (text : String)
  | fast (n : Int64)
  | precise (d : Decimal)
  | declare (name : String) (init : Node)
  | assign (name : String) (value : Node)
  | read (name : String)
  | binary (op : Operator) (left right : Node)
  | negate (operand : Node)

namespace Call

def operands : Call → List Node
  | declare _ n | assign _ n | negate n => [n]
  | binary _ l r => [l, r]
  | number _ | fast _ | precise _ | read _ => []

def declares? : Call → Option String
  | declare name _ => some name
  | _ => none

end Call

/-- The node that a call gives, and the builder after it. -/
def answer (b : Builder) : Call → Except BuildError (Node × Builder)
  | .number text => (number text).map (·, b)
  | .fast n => .ok (.fast n, b)
  | .precise d => .ok (.precise d, b)
  | .declare name init => b.declare name init
  | .assign name value => (b.assign name value).map (·, b)
  | .read name => (b.read name).map (·, b)
  | .binary op l r => .ok (binary op l r, b)
  | .negate n => .ok (negate n, b)

def call (b : Builder) (c : Call) : Builder :=
  match b.answer c with
  | .ok (_, b') => b'
  | .error _ => b

/-- Only a declaration changes the builder. -/
theorem call_eq_self {b : Builder} {c : Call} (h : c.declares? = none) : b.call c = b := by
  cases c with
  | declare => cases h
  | fast | precise | binary | negate => rfl
  | number text =>
    simp only [call, answer]
    cases number text <;> rfl
  | assign name value =>
    simp only [call, answer]
    cases b.assign name value <;> rfl
  | read name =>
    simp only [call, answer]
    cases b.read name <;> rfl

def after (calls : List Call) : Builder := calls.foldl call {}

end Builder
end AdaptiveCalc
