import AdaptiveCalc.Evaluation.Event
import AdaptiveCalc.Settings.Basic
import AdaptiveCalc.Store

/-!
# Evaluation of trees

A tree is evaluated from left to right. On entering a node the depth is checked
before anything else. An operation that has not settled tries integers when both
operands are integers; when that fails it settles, and from then on it computes on
decimals. The tree after the evaluation is part of its outcome, for its settled bits
may have changed, and it is so also when the evaluation fails.

`Node.evaluate` follows the tree and says what an evaluation does. The machine in
`Evaluation.Machine` computes the same outcome for trees of any depth.
-/
namespace AdaptiveCalc

/-- What an evaluation uses and changes besides the tree. -/
structure State where
  store : Store
  depth : Nat := 0
  /-- The latest event comes first. -/
  history : List Event := []
  deriving Repr

namespace State

def emit (s : State) (e : Event) : State := { s with history := e :: s.history }

def enter (s : State) : State := { s with depth := s.depth + 1 }

def leave (s : State) : State := { s with depth := s.depth - 1 }

@[simp] theorem leave_enter (s : State) : s.enter.leave = s := rfl
@[simp] theorem store_emit (s : State) (e : Event) : (s.emit e).store = s.store := rfl
@[simp] theorem store_enter (s : State) : s.enter.store = s.store := rfl
@[simp] theorem store_leave (s : State) : s.leave.store = s.store := rfl
@[simp] theorem depth_emit (s : State) (e : Event) : (s.emit e).depth = s.depth := rfl
@[simp] theorem depth_enter (s : State) : s.enter.depth = s.depth + 1 := rfl
@[simp] theorem depth_leave (s : State) : s.leave.depth = s.depth - 1 := rfl

def read (s : State) (slot : Nat) : Except EvalError Value × State :=
  match s.store.read slot with
  | .ok v => (.ok v, s.emit (.read slot v))
  | .error e => (.error e, s)

/-- The value of an assignment is the value that was written, although the slot may
hold it widened. -/
def write (s : State) (slot : Nat) (v : Value) : Except EvalError Value × State :=
  match s.store.write slot v with
  | .ok store =>
    (.ok v, { s with store }.emit (.write slot v (s.store.demotedBy slot v)))
  | .error e => (.error e, s)

end State

structure Outcome where
  result : Except EvalError Value
  node : Node
  state : State

/-- What a site makes of the values of its operands. -/
structure Application where
  result : Except EvalError Value
  settled : Bool
  failure? : Option Fast.Failure := none

/-- A site that has settled computes on decimals. One that has not settles when
both operands are integers and have no exact result. -/
def applySite (op : Operator) (precision : Nat) (settled : Bool) (v w : Value) : Application :=
  match settled, v, w with
  | false, .fast a, .fast b =>
    match Fast.apply op a b with
    | .ok n => { result := .ok (.fast n), settled := false }
    | .error failure =>
      { result := Value.applyPrecise op precision v w, settled := true, failure? := some failure }
  | _, _, _ => { result := Value.applyPrecise op precision v w, settled }

def State.settling (s : State) (op : Operator) : Option Fast.Failure → State
  | some failure => s.emit (.settle op failure)
  | none => s

@[simp] theorem State.store_settling (s : State) (op : Operator) (f : Option Fast.Failure) :
    (s.settling op f).store = s.store := by cases f <;> rfl

@[simp] theorem State.depth_settling (s : State) (op : Operator) (f : Option Fast.Failure) :
    (s.settling op f).depth = s.depth := by cases f <;> rfl

namespace Outcome

def leaf (node : Node) (answer : Except EvalError Value × State) : Outcome :=
  ⟨answer.1, node, answer.2⟩

def tooDeep (settings : Settings) (node : Node) (s : State) : Outcome :=
  ⟨.error (.depthExceeded settings.maxDepth), node, s⟩

def assign (slot : Nat) (o : Outcome) : Outcome :=
  match o.result with
  | .error e => ⟨.error e, .assign slot o.node, o.state.leave⟩
  | .ok v =>
    let (result, state) := o.state.write slot v
    ⟨result, .assign slot o.node, state.leave⟩

def negate (settings : Settings) (settled : Bool) (o : Outcome) : Outcome :=
  match o.result with
  | .error e => ⟨.error e, .negate settled o.node, o.state.leave⟩
  | .ok v =>
    let a := applySite .sub settings.divisionPrecision settled (.fast 0) v
    ⟨a.result, .negate a.settled o.node, (o.state.settling .sub a.failure?).leave⟩

def leftFailed (op : Operator) (settled : Bool) (right : Node) (e : EvalError) (o : Outcome) :
    Outcome :=
  ⟨.error e, .binary op settled o.node right, o.state.leave⟩

def binary (settings : Settings) (op : Operator) (settled : Bool) (left : Node) (v : Value)
    (o : Outcome) : Outcome :=
  match o.result with
  | .error e => ⟨.error e, .binary op settled left o.node, o.state.leave⟩
  | .ok w =>
    let a := applySite op settings.divisionPrecision settled v w
    ⟨a.result, .binary op a.settled left o.node, (o.state.settling op a.failure?).leave⟩

end Outcome

/-- Evaluates a tree, operands before their operation and the left one first. -/
def Node.evaluate (settings : Settings) (n : Node) (s : State) : Outcome :=
  if settings.maxDepth ≤ s.depth then .tooDeep settings n s
  else
    match n with
    | .fast k => .leaf n (.ok (.fast k), s)
    | .precise d => .leaf n (.ok (.precise d), s)
    | .read slot => .leaf n (s.read slot)
    | .assign slot e => .assign slot (e.evaluate settings s.enter)
    | .negate settled e => .negate settings settled (e.evaluate settings s.enter)
    | .binary op settled l r =>
      let o := l.evaluate settings s.enter
      match o.result with
      | .error e => .leftFailed op settled r e o
      | .ok v => .binary settings op settled o.node v (r.evaluate settings o.state)

end AdaptiveCalc
