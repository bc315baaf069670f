import AdaptiveCalc.Error
import AdaptiveCalc.Node.Basic

/-!
# Programs

A program is a list of statements that is not empty. The value of its last
statement is the value of the program.
-/
namespace AdaptiveCalc

structure Program where
  leading : List Node
  last : Node
  deriving DecidableEq, Repr, Inhabited

namespace Program

def ofStatements : List Node → Except BuildError Program
  | [] => .error .emptyProgram
  | n :: rest => .ok ⟨(n :: rest).dropLast, (n :: rest).getLast (by simp)⟩

def statements (p : Program) : List Node := p.leading ++ [p.last]

def size (p : Program) : Nat := p.leading.length + 1

def statement? (p : Program) (index : Nat) : Option Node := p.statements[index]?

/-- The program with another statement in the place of one of its own. -/
def replace (p : Program) (index : Nat) (n : Node) : Program :=
  if index < p.leading.length then { p with leading := p.leading.set index n }
  else if index = p.leading.length then { p with last := n }
  else p

@[simp] theorem length_statements (p : Program) : p.statements.length = p.size := by
  simp [statements, size]

@[simp] theorem statements_replace (p : Program) (index : Nat) (n : Node) :
    (p.replace index n).statements = p.statements.set index n := by
  unfold replace statements
  split
  · next h => simp [h]
  · split
    · next h => simp [h]
    · next h₁ h₂ =>
      rw [List.set_eq_of_length_le]
      simp only [List.length_append, List.length_singleton]; omega

theorem ofStatements_of_ne_nil {nodes : List Node} (h : nodes ≠ []) :
    ofStatements nodes = .ok ⟨nodes.dropLast, nodes.getLast h⟩ := by
  cases nodes with
  | nil => exact absurd rfl h
  | cons n rest => rfl

theorem statements_of_ofStatements {nodes : List Node} {p : Program}
    (h : ofStatements nodes = .ok p) : p.statements = nodes := by
  cases nodes with
  | nil => cases h
  | cons n rest =>
    cases h
    exact List.dropLast_concat_getLast _

end Program
end AdaptiveCalc
