import AdaptiveCalc.Value

/-!
# Expression trees

A node is a literal, a variable, an assignment, a negation or an operation on two
operands. Negations and operations are the sites of a tree: each remembers whether
it has settled on decimals. Names are gone; a node knows variables by their slots.

A negation subtracts its operand from the literal zero, which counts as a node of
its own for the depth of the tree.
-/
namespace AdaptiveCalc

-- Sums start at the zero of core, whichever others are known.
attribute [local instance (2000)] Zero.ofOfNat0

inductive Node where
  | fast (n : Int64)
  | precise (d : Decimal)
  | read (slot : Nat)
  | assign (slot : Nat) (expr : Node)
  | negate (settled : Bool) (operand : Node)
  | binary (op : Operator) (settled : Bool) (left right : Node)
  deriving DecidableEq, Repr, Inhabited

namespace Node

def literal : Value → Node
  | .fast n => fast n
  | .precise d => precise d

def neg (operand : Node) : Node := negate false operand

def op (op : Operator) (left right : Node) : Node := binary op false left right

/-- The number of nodes of a tree, the zeros of its negations apart. -/
def size : Node → Nat
  | fast _ | precise _ | read _ => 1
  | assign _ e => e.size + 1
  | negate _ e => e.size + 1
  | binary _ _ l r => l.size + r.size + 1

theorem size_pos (n : Node) : 0 < n.size := by cases n <;> simp [size]

/-- The settled bits of the sites of a tree, operands before their site. -/
def settledBits : Node → List Bool
  | fast _ | precise _ | read _ => []
  | assign _ e => e.settledBits
  | negate settled e => e.settledBits ++ [settled]
  | binary _ settled l r => l.settledBits ++ r.settledBits ++ [settled]

/-- The settled bits of trees, the last tree of `todo` first, in front of `bits`.
The list of trees takes the place of a stack, so a tree may be of any depth. -/
def gatherBits (todo : List Node) (bits : List Bool) : List Bool :=
  match todo with
  | [] => bits
  | .fast _ :: rest | .precise _ :: rest | .read _ :: rest => gatherBits rest bits
  | .assign _ e :: rest => gatherBits (e :: rest) bits
  | .negate settled e :: rest => gatherBits (e :: rest) (settled :: bits)
  | .binary _ settled l r :: rest => gatherBits (r :: l :: rest) (settled :: bits)
termination_by (todo.map size).sum
decreasing_by all_goals simp only [List.map_cons, List.sum_cons, size]; omega

theorem gatherBits_cons (n : Node) (rest : List Node) (bits : List Bool) :
    gatherBits (n :: rest) bits = gatherBits rest (n.settledBits ++ bits) := by
  induction n generalizing rest bits with
  | fast | precise | read => simp [gatherBits, settledBits]
  | assign _ _ ih => rw [gatherBits, ih]; rfl
  | negate _ _ ih => rw [gatherBits, ih]; simp [settledBits]
  | binary _ _ _ _ ihl ihr => rw [gatherBits, ihr, ihl]; simp [settledBits]

def bits (n : Node) : List Bool := gatherBits [n] []

@[simp] theorem bits_eq (n : Node) : n.bits = n.settledBits := by
  simp [bits, gatherBits_cons, gatherBits]

end Node
end AdaptiveCalc
