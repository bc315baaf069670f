import AdaptiveCalc.Decimal.Numeral
import AdaptiveCalc.Evaluation.Event
import AdaptiveCalc.Program
import AdaptiveCalc.Store
import AdaptiveCalc.Text.Blank

/-!
# The builder

A builder makes the nodes of a program. It reads numerals, and it gives slots to
names, so that the nodes it makes mention only slots that it has declared. A call
that fails leaves it as it was.
-/
namespace AdaptiveCalc

structure Numeral where
  /-- The text without the blanks around it. -/
  text : String
  value : Value
  deriving DecidableEq, Repr

namespace Numeral

/-- A numeral is an integer only if its exponent stands for no more zeros. -/
def maxZeros : Int := 18

/-- A decimal without a fraction is an integer where it is one of 64 bits. Its zeros
are counted before they are written out. -/
def classify (d : Decimal) : Value :=
  if -maxZeros ≤ d.scale ∧ d.scale ≤ 0 then
    match Fast.narrow (d.digitsAt 0) with
    | .ok n => .fast n
    | .error _ => .precise d
  else .precise d

def read? (text : String) : Option Numeral :=
  let trimmed := Text.trim text.toList
  (Decimal.read? trimmed).map fun d => ⟨String.ofList trimmed, classify d⟩

def node (n : Numeral) : Node := .literal n.value

def record (n : Numeral) : Record := .classification n.value.isFast n.text

end Numeral

structure Builder where
  store : Store := {}
  deriving Repr

namespace Builder

def numeral (text : String) : Except BuildError Numeral :=
  match Numeral.read? text with
  | some numeral => .ok numeral
  | none => .error (.invalidNumeral text)

def number (text : String) : Except BuildError Node :=
  (numeral text).map Numeral.node

/-- Declares a variable; the node assigns its first value. -/
def declare (b : Builder) (name : String) (value : Node) : Except BuildError (Node × Builder) :=
  match b.store.declare name with
  | .ok (slot, store) => .ok (.assign slot value, { store })
  | .error e => .error e

def assign (b : Builder) (name : String) (value : Node) : Except BuildError Node :=
  (b.store.resolve name).map (.assign · value)

def read (b : Builder) (name : String) : Except BuildError Node :=
  (b.store.resolve name).map .read

def binary (op : Operator) (left right : Node) : Node := .op op left right

def negate (operand : Node) : Node := .neg operand

def build (b : Builder) (statements : List Node) : Except BuildError (Program × Store) :=
  (Program.ofStatements statements).map (·, b.store)

end Builder
end AdaptiveCalc
