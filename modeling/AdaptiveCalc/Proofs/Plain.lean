import AdaptiveCalc.Interpreter
import AdaptiveCalc.Proofs.Decimal.Rounding
import AdaptiveCalc.Proofs.Fast
import Mathlib.Logic.Function.Basic

/-!
# A plain evaluator

Evaluation as one would define it on numbers alone: a value is a rational number, a
slot holds a number or nothing, and a tree has no settled bits. How a division is
carried out is left open; the two ways that matter here are division rounded to the
digits that the settings ask for, and exact division. The order of evaluation and the
check of the depth are those of the interpreter.
-/
namespace AdaptiveCalc

/-- What the slots hold: `none` where there is no slot, `some none` in an empty one. -/
abbrev Memory := ℕ → Option (Option ℚ)

namespace Memory

def read (m : Memory) (slot : ℕ) : Except EvalError ℚ :=
  match m slot with
  | some (some x) => .ok x
  | _ => .error (.uninitializedRead slot)

def write (m : Memory) (slot : ℕ) (x : ℚ) : Except EvalError Memory :=
  match m slot with
  | some _ => .ok (Function.update m slot (some (some x)))
  | none => .error (.undeclaredWrite slot)

end Memory

structure Reckoning where
  result : Except EvalError ℚ
  memory : Memory

namespace Reckoning

def andThen (r : Reckoning) (next : ℚ → Memory → Reckoning) : Reckoning :=
  match r.result with
  | .ok x => next x r.memory
  | .error e => ⟨.error e, r.memory⟩

@[simp] theorem andThen_ok (x : ℚ) (m : Memory) (next : ℚ → Memory → Reckoning) :
    andThen ⟨.ok x, m⟩ next = next x m := rfl

@[simp] theorem andThen_error (e : EvalError) (m : Memory) (next : ℚ → Memory → Reckoning) :
    andThen ⟨.error e, m⟩ next = ⟨.error e, m⟩ := rfl

/-- Writes the number, which is then also the result. -/
def store (slot : ℕ) (x : ℚ) (m : Memory) : Reckoning :=
  match m.write slot x with
  | .ok m' => ⟨.ok x, m'⟩
  | .error e => ⟨.error e, m⟩

end Reckoning

structure Plain where
  divide : ℚ → ℚ → Except EvalError ℚ
  maxDepth : ℕ

namespace Plain

def apply (P : Plain) : Operator → ℚ → ℚ → Except EvalError ℚ
  | .add, x, y => .ok (x + y)
  | .sub, x, y => .ok (x - y)
  | .mul, x, y => .ok (x * y)
  | .div, x, y => P.divide x y

def evaluate (P : Plain) (depth : ℕ) (n : Node) (m : Memory) : Reckoning :=
  if P.maxDepth ≤ depth then ⟨.error (.depthExceeded P.maxDepth), m⟩
  else
    match n with
    | .fast k => ⟨.ok k.toInt, m⟩
    | .precise d => ⟨.ok d.toRat, m⟩
    | .read slot => ⟨m.read slot, m⟩
    | .assign slot e => (P.evaluate (depth + 1) e m).andThen (Reckoning.store slot)
    | .negate _ e => (P.evaluate (depth + 1) e m).andThen fun x m => ⟨.ok (-x), m⟩
    | .binary op _ l r =>
      (P.evaluate (depth + 1) l m).andThen fun x m =>
        (P.evaluate (depth + 1) r m).andThen fun y m => ⟨P.apply op x y, m⟩

section
variable {P : Plain} {depth : ℕ} {m : Memory}

variable (h : depth < P.maxDepth)
include h

theorem evaluate_fast (k : Int64) : P.evaluate depth (.fast k) m = ⟨.ok k.toInt, m⟩ :=
  if_neg (Nat.not_le.2 h)

theorem evaluate_precise (d : Decimal) : P.evaluate depth (.precise d) m = ⟨.ok d.toRat, m⟩ :=
  if_neg (Nat.not_le.2 h)

theorem evaluate_read (slot : ℕ) : P.evaluate depth (.read slot) m = ⟨m.read slot, m⟩ :=
  if_neg (Nat.not_le.2 h)

theorem evaluate_assign (slot : ℕ) (e : Node) :
    P.evaluate depth (.assign slot e) m =
      (P.evaluate (depth + 1) e m).andThen (Reckoning.store slot) :=
  if_neg (Nat.not_le.2 h)

theorem evaluate_negate (b : Bool) (e : Node) :
    P.evaluate depth (.negate b e) m =
      (P.evaluate (depth + 1) e m).andThen fun x m => ⟨.ok (-x), m⟩ :=
  if_neg (Nat.not_le.2 h)

theorem evaluate_binary (op : Operator) (b : Bool) (l r : Node) :
    P.evaluate depth (.binary op b l r) m =
      (P.evaluate (depth + 1) l m).andThen fun x m =>
        (P.evaluate (depth + 1) r m).andThen fun y m => ⟨P.apply op x y, m⟩ :=
  if_neg (Nat.not_le.2 h)

end

def runFrom (P : Plain) (depth : ℕ) (leading : List Node) (last : Node) (m : Memory) :
    Reckoning :=
  match leading with
  | [] => P.evaluate depth last m
  | n :: rest => (P.evaluate depth n m).andThen fun _ m => P.runFrom depth rest last m

def run (P : Plain) (depth : ℕ) (p : Program) (m : Memory) : Reckoning :=
  P.runFrom depth p.leading p.last m

/-- A result in 64 bits is exact, so the plain operation gives the same number. -/
theorem apply_of_fast {P : Plain} {op : Operator} {a b n : Int64}
    (h : Fast.apply op a b = .ok n)
    (hdivide : op = .div → (b.toInt : ℚ) ≠ 0 → (n.toInt : ℚ) = a.toInt / b.toInt →
      P.divide a.toInt b.toInt = .ok n.toInt) :
    P.apply op a.toInt b.toInt = .ok n.toInt := by
  cases op with
  | add =>
    have hn : n.toInt = a.toInt + b.toInt := Fast.toInt_of_narrow h
    simp [apply, hn]
  | sub =>
    have hn : n.toInt = a.toInt - b.toInt := Fast.toInt_of_narrow h
    simp [apply, hn]
  | mul =>
    have hn : n.toInt = a.toInt * b.toInt := Fast.toInt_of_narrow h
    simp [apply, hn]
  | div =>
    obtain ⟨hb, hn⟩ := Fast.toInt_of_div h
    exact hdivide rfl hb hn

/-- Division to the number of significant digits that the settings ask for. -/
def rounding (settings : Settings) : Plain where
  divide x y :=
    if y = 0 then .error .divisionByZero else .ok (roundTo settings.divisionPrecision (x / y))
  maxDepth := settings.maxDepth

/-- Division without rounding, where `c` stands for whatever a division by zero gives. -/
def exact (c : ℚ) (maxDepth : ℕ) : Plain where
  divide x y := .ok (if y = 0 then c else x / y)
  maxDepth := maxDepth

end Plain

namespace Store

def numbers (s : Store) : Memory := fun slot =>
  (s.contents? slot).map fun c => c.value?.map Value.toRat

end Store
end AdaptiveCalc
