/-!
# Operators

The operations that join two operands, and the one character that writes each.
-/
namespace AdaptiveCalc

inductive Operator where
  | add
  | sub
  | mul
  | div
  deriving DecidableEq, Repr, Inhabited

namespace Operator

def symbol : Operator → Char
  | add => '+'
  | sub => '-'
  | mul => '*'
  | div => '/'

def ofSymbol? : Char → Option Operator
  | '+' => some add
  | '-' => some sub
  | '*' => some mul
  | '/' => some div
  | _ => none

@[simp] theorem ofSymbol?_symbol (op : Operator) : ofSymbol? op.symbol = some op := by
  cases op <;> rfl

end Operator
end AdaptiveCalc
