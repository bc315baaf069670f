import AdaptiveCalc.Evaluation.Machine
import AdaptiveCalc.Program

/-!
# The interpreter

An interpreter keeps a store, the settings and the present depth between calls. It
evaluates single trees, and it runs programs: statement after statement, up to the
first that fails. A call gives back what it was called on, because settled bits
belong to the program and outlive the interpreter.
-/
namespace AdaptiveCalc

structure Interpreter where
  store : Store := {}
  settings : Settings := {}
  depth : Nat := 0
  deriving Repr

/-- What a call leaves behind; the events are in the order in which they occurred. -/
structure Evaluation (α : Type) where
  result : Except EvalError Value
  subject : α
  interpreter : Interpreter
  events : List Event

namespace Interpreter

def state (i : Interpreter) : State := { store := i.store, depth := i.depth }

def finish {α : Type} (i : Interpreter) (result : Except EvalError Value) (subject : α)
    (s : State) : Evaluation α :=
  { result, subject, interpreter := { i with store := s.store, depth := s.depth },
    events := s.history.reverse }

def eval (i : Interpreter) (n : Node) : Evaluation Node :=
  let o := n.eval i.settings i.state
  i.finish o.result o.node o.state

structure Leading where
  failure? : Option EvalError
  nodes : List Node
  state : State

/-- Evaluates statements in order, the first of them with the number `index`, and stops
at the first that fails. The statements before them are `done`, the latest first. -/
def runLeading (settings : Settings) (index : Nat) (done todo : List Node) (s : State) :
    Leading :=
  match todo with
  | [] => ⟨none, done.reverse, s⟩
  | n :: rest =>
    let o := n.eval settings (s.emit (.statement index n))
    match o.result with
    | .error e => ⟨some e, done.reverse ++ o.node :: rest, o.state⟩
    | .ok _ => runLeading settings (index + 1) (o.node :: done) rest o.state

def run (i : Interpreter) (p : Program) : Evaluation Program :=
  let leading := runLeading i.settings 0 [] p.leading (i.state.emit (.begin p.size))
  match leading.failure? with
  | some e => i.finish (.error e) ⟨leading.nodes, p.last⟩ leading.state
  | none =>
    let o := p.last.eval i.settings (leading.state.emit (.resultStatement p.last))
    i.finish o.result ⟨leading.nodes, o.node⟩ o.state

end Interpreter

namespace Evaluation

def text {α : Type} (e : Evaluation α) : Except EvalError String := e.result.map Value.text

end Evaluation

structure SingleRun where
  result : Except RunError String
  program : Program
  events : List Event

/-- Runs a program on a store of its own, unless the settings are refused; then
nothing is run at all. -/
def Program.runOnce (p : Program) (store : Store) (settings : Settings := {}) : SingleRun :=
  match settings.validate with
  | .error e => ⟨.error (.settings e), p, []⟩
  | .ok settings =>
    let e := ({ store, settings } : Interpreter).run p
    ⟨e.text.mapError .evaluation, e.subject, e.events⟩

end AdaptiveCalc
