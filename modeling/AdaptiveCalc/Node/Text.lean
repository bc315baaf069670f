import AdaptiveCalc.Node.Basic

/-!
# The text of a tree

Operations stand in parentheses, so the text shows the shape of the tree; variables
show as `$` and their slot. Settled sites look like others. A decimal literal shows
all the digits it was written with.
-/
namespace AdaptiveCalc.Node

attribute [local instance (2000)] Zero.ofOfNat0

def chars : Node → List Char
  | fast n => integerChars n.toInt
  | precise d => d.plainChars
  | read slot => '$' :: naturalChars slot
  | assign slot e => '$' :: naturalChars slot ++ [' ', '=', ' '] ++ e.chars
  | negate _ e => '-' :: e.chars
  | binary op _ l r => '(' :: l.chars ++ [' ', op.symbol, ' '] ++ r.chars ++ [')']

/-- What is still to be written: trees, and the characters between and after them. -/
inductive Piece where
  | node (n : Node)
  | text (cs : List Char)

namespace Piece

def chars : Piece → List Char
  | node n => n.chars
  | text cs => cs

def weight : Piece → Nat
  | node n => 4 * n.size
  | text _ => 1

end Piece

/-- Writes pieces behind `written`. The list of pieces takes the place of a stack, so
a tree may be of any depth. -/
def write (todo : List Piece) (written : String) : String :=
  match todo with
  | [] => written
  | .text cs :: rest => write rest (cs.foldl String.push written)
  | .node (.fast n) :: rest => write (.text (integerChars n.toInt) :: rest) written
  | .node (.precise d) :: rest => write (.text d.plainChars :: rest) written
  | .node (.read slot) :: rest => write (.text ('$' :: naturalChars slot) :: rest) written
  | .node (.assign slot e) :: rest =>
    write (.text ('$' :: naturalChars slot ++ [' ', '=', ' ']) :: .node e :: rest) written
  | .node (.negate _ e) :: rest => write (.text ['-'] :: .node e :: rest) written
  | .node (.binary op _ l r) :: rest =>
    write (.text ['('] :: .node l :: .text [' ', op.symbol, ' '] :: .node r :: .text [')'] :: rest)
      written
termination_by (todo.map Piece.weight).sum
decreasing_by
  all_goals simp only [List.map_cons, List.sum_cons, Piece.weight, size]; omega

def text (n : Node) : String := write [.node n] ""

theorem toList_foldl_push (cs : List Char) (s : String) :
    (cs.foldl String.push s).toList = s.toList ++ cs := by
  induction cs generalizing s with
  | nil => simp
  | cons c cs ih => simp [ih]

theorem write_text (cs : List Char) (rest : List Piece) (s : String) :
    write (.text cs :: rest) s = write rest (cs.foldl String.push s) := by rw [write]

theorem write_cons (p : Piece) (rest : List Piece) (s : String) :
    write (p :: rest) s = write rest (p.chars.foldl String.push s) := by
  cases p with
  | text cs => exact write_text cs rest s
  | node n =>
    induction n generalizing rest s with
    | fast | precise | read => rw [write, write_text]; rfl
    | assign _ _ ih => rw [write, write_text, ih]; simp [Piece.chars, chars]
    | negate _ _ ih => rw [write, write_text, ih]; simp [Piece.chars, chars]
    | binary _ _ _ _ ihl ihr =>
      rw [write, write_text, ihl, write_text, ihr, write_text]; simp [Piece.chars, chars]

@[simp] theorem toList_text (n : Node) : n.text.toList = n.chars := by
  rw [text, write_cons, write]
  simp [toList_foldl_push, Piece.chars]

end AdaptiveCalc.Node
