import AdaptiveCalc.Proofs.Evaluation.Past
import Mathlib.Data.List.Chain

/-!
# The stages of a run

A run is made of calls on its statements, one after the other. The first call is on the
interpreter of the run, each other one on the interpreter that the call before it leaves, and
there is none behind a call that fails. The last statement is not different from the others
but in the event with which it begins. Main statement: `Interpreter.consistsOf_run`.
-/
namespace AdaptiveCalc

/-- A statement, and the interpreter that evaluates it. -/
structure Stage where
  interpreter : Interpreter
  statement : Node

namespace Stage

def evaluation (x : Stage) : Evaluation Node := x.interpreter.eval x.statement

end Stage

/-- The event with which the statement number `index` begins, if the last one has the number
`last`. -/
def Event.beginning (last index : ℕ) (n : Node) : Event :=
  if index = last then .resultStatement n else .statement index n

namespace Interpreter

def stages (i : Interpreter) : List Node → List Stage
  | [] => []
  | n :: rest =>
    ⟨i, n⟩ ::
      match (i.eval n).result with
      | .error _ => []
      | .ok _ => (i.eval n).interpreter.stages rest

variable {i : Interpreter} {n : Node}

theorem stages_of_error {x : EvalError} (h : (i.eval n).result = .error x) (rest : List Node) :
    i.stages (n :: rest) = [⟨i, n⟩] := by
  rw [stages, h]

theorem stages_singleton (i : Interpreter) (n : Node) : i.stages [n] = [⟨i, n⟩] := by
  simp only [stages]
  cases (i.eval n).result <;> rfl

theorem stages_of_ok {v : Value} (h : (i.eval n).result = .ok v) (rest : List Node) :
    i.stages (n :: rest) = ⟨i, n⟩ :: (i.eval n).interpreter.stages rest := by
  rw [stages, h]

theorem length_stages_le (i : Interpreter) (nodes : List Node) :
    (i.stages nodes).length ≤ nodes.length := by
  induction nodes generalizing i with
  | nil => exact Nat.le_refl _
  | cons n rest ih =>
    cases hn : (i.eval n).result with
    | error e => simp [stages_of_error hn]
    | ok v => simpa [stages_of_ok hn] using ih _

theorem interpreter_of_head?_stages (i : Interpreter) (nodes : List Node) {x : Stage}
    (h : (i.stages nodes).head? = some x) : x.interpreter = i := by
  cases nodes with
  | nil => cases h
  | cons n rest =>
    cases h
    rfl

theorem getElem?_of_stages {nodes : List Node} {k : ℕ} {x : Stage}
    (h : (i.stages nodes)[k]? = some x) : nodes[k]? = some x.statement := by
  induction nodes generalizing i k with
  | nil => cases h
  | cons n rest ih =>
    cases k with
    | zero =>
      cases h
      rfl
    | succ k =>
      cases hn : (i.eval n).result with
      | error e =>
        rw [stages_of_error hn] at h
        cases h
      | ok v =>
        rw [stages_of_ok hn] at h
        exact ih h

theorem isChain_stages (i : Interpreter) (nodes : List Node) :
    (i.stages nodes).IsChain fun x y => y.interpreter = x.evaluation.interpreter := by
  induction nodes generalizing i with
  | nil => exact .nil
  | cons n rest ih =>
    cases hn : (i.eval n).result with
    | error e =>
      rw [stages_of_error hn]
      exact .singleton _
    | ok v =>
      rw [stages_of_ok hn]
      cases rest with
      | nil => exact .singleton _
      | cons m rest => exact .cons_cons rfl (ih _)

/-- Behind a statement that fails there are no stages, whichever statements follow. -/
theorem stages_append_of_error {xs : List Node} {x : Stage} {e : EvalError}
    (hlast : (i.stages xs).getLast? = some x) (hx : x.evaluation.result = .error e)
    (ys : List Node) : i.stages (xs ++ ys) = i.stages xs := by
  induction xs generalizing i with
  | nil => cases hlast
  | cons n rest ih =>
    rw [List.cons_append]
    cases hn : (i.eval n).result with
    | error e' => rw [stages_of_error hn, stages_of_error hn]
    | ok v =>
      rw [stages_of_ok hn] at hlast
      rw [stages_of_ok hn, stages_of_ok hn]
      cases rest with
      | nil =>
        cases hlast
        cases hn.symm.trans hx
      | cons m rest => rw [ih (by simpa [stages] using hlast)]

theorem stages_append_of_ok {xs : List Node} {x : Stage} {v : Value}
    (hlast : (i.stages xs).getLast? = some x) (hx : x.evaluation.result = .ok v)
    (ys : List Node) : i.stages (xs ++ ys) = i.stages xs ++ x.evaluation.interpreter.stages ys ∧
      (i.stages xs).length = xs.length := by
  induction xs generalizing i with
  | nil => cases hlast
  | cons n rest ih =>
    rw [List.cons_append]
    cases hn : (i.eval n).result with
    | error e =>
      rw [stages_of_error hn] at hlast
      cases hlast
      cases hn.symm.trans hx
    | ok w =>
      rw [stages_of_ok hn] at hlast
      rw [stages_of_ok hn, stages_of_ok hn]
      cases rest with
      | nil =>
        cases hlast
        exact ⟨rfl, rfl⟩
      | cons m rest =>
        obtain ⟨happend, hlength⟩ := ih (by simpa [stages] using hlast)
        rw [happend, List.length_cons, hlength]
        exact ⟨rfl, rfl⟩

end Interpreter

section
variable {settings : Settings} {index : ℕ} {leading : List Node} {last : Node} {s : State}
  {e : Ending} {xss : List (List Visit)}

/-- The events of stages, the first of them with the number `index`. -/
def Stage.eventsFrom (last index : ℕ) (xs : List Stage) : List Event :=
  (xs.zipIdx index).flatMap fun (x, k) => .beginning last k x.statement :: x.evaluation.events

@[simp] theorem Stage.eventsFrom_cons (last index : ℕ) (x : Stage) (xs : List Stage) :
    eventsFrom last index (x :: xs) = .beginning last index x.statement ::
      (x.evaluation.events ++ eventsFrom last (index + 1) xs) := rfl

@[simp] theorem Stage.eventsFrom_nil (last index : ℕ) : eventsFrom last index [] = [] := rfl

theorem Executes.stages (h : Executes settings index leading last s e xss) :
    let xs := (s.interpreter settings).stages (leading ++ [last])
    (∃ x, xs.getLast? = some x ∧ e.result = x.evaluation.result ∧
        e.state.interpreter settings = x.evaluation.interpreter) ∧
      e.leading ++ [e.last] =
        xs.map (·.evaluation.subject) ++ (leading ++ [last]).drop xs.length ∧
      e.state.history =
        (Stage.eventsFrom (index + leading.length) index xs).reverse ++ s.history := by
  induction h with
  | last hn =>
    obtain ⟨hresult, hnode, -, hhistory⟩ := hn.eq_eval
    have hinterpreter := hn.interpreter_eq
    simp only [State.interpreter_emit] at hresult hnode hhistory hinterpreter
    simp only [List.nil_append, Interpreter.stages_singleton]
    refine ⟨⟨_, List.getLast?_singleton, hresult, hinterpreter⟩, ?_, ?_⟩
    · exact congrArg (fun m => [m]) hnode
    · simp [hhistory, Event.beginning, State.emit, Stage.evaluation]
  | failed hn =>
    obtain ⟨hresult, hnode, -, hhistory⟩ := hn.eq_eval
    have hinterpreter := hn.interpreter_eq
    simp only [State.interpreter_emit] at hresult hnode hhistory hinterpreter
    simp only [List.cons_append, Interpreter.stages_of_error hresult.symm]
    refine ⟨⟨_, List.getLast?_singleton, hresult, hinterpreter⟩, ?_, ?_⟩
    · exact congrArg (fun m => m :: _) hnode
    · simp [hhistory, Event.beginning, State.emit, Stage.evaluation]
  | next hn _ ih =>
    obtain ⟨hresult, hnode, -, hhistory⟩ := hn.eq_eval
    have hinterpreter := hn.interpreter_eq
    simp only [State.interpreter_emit] at hresult hnode hhistory hinterpreter
    simp only [List.cons_append, Interpreter.stages_of_ok hresult.symm]
    simp only [hinterpreter] at ih
    obtain ⟨⟨x, hx, hend⟩, hstatements, hhistory'⟩ := ih
    refine ⟨⟨x, ?_, hend⟩, ?_, ?_⟩
    · rw [List.getLast?_cons, hx]
      rfl
    · simp only [hstatements]
      exact congrArg (fun m => m :: _) hnode
    · rw [hhistory', hhistory]
      simp [Event.beginning, State.emit, Stage.evaluation, Nat.add_right_comm, Nat.add_assoc]

end

/-- What a run is, if these are the stages of its program. -/
structure ConsistsOf (p : Program) (e : Evaluation Program) (xs : List Stage) : Prop where
  ending : ∃ x, xs.getLast? = some x ∧ e.result = x.evaluation.result ∧
    e.interpreter = x.evaluation.interpreter
  statements : e.subject.statements =
    xs.map (·.evaluation.subject) ++ p.statements.drop xs.length
  events : e.events = .begin p.size :: Stage.eventsFrom p.leading.length 0 xs

namespace ConsistsOf
variable {p : Program} {e : Evaluation Program} {xs : List Stage} {k : ℕ}

theorem statement?_of_some (h : ConsistsOf p e xs) {x : Stage} (hx : xs[k]? = some x) :
    e.subject.statement? k = some x.evaluation.subject := by
  obtain ⟨hlt, -⟩ := List.getElem?_eq_some_iff.1 hx
  rw [Program.statement?, h.statements, List.getElem?_append_left (by simpa using hlt),
    List.getElem?_map, hx, Option.map_some]

theorem statement?_of_none (h : ConsistsOf p e xs) (hx : xs[k]? = none) :
    e.subject.statement? k = p.statement? k := by
  have hle : xs.length ≤ k := List.getElem?_eq_none_iff.1 hx
  rw [Program.statement?, h.statements, List.getElem?_append_right (by simpa using hle),
    List.getElem?_drop, List.length_map, Nat.add_sub_cancel' hle, Program.statement?]

end ConsistsOf

namespace Interpreter

/-- A run is made of calls on its statements. -/
theorem consistsOf_run (i : Interpreter) (p : Program) :
    ConsistsOf p (i.run p) (i.stages p.statements) := by
  have hrun := (i.executes p).stages
  have hstart : (i.state.emit (.begin p.size)).interpreter i.settings = i := rfl
  simp only [hstart] at hrun
  obtain ⟨⟨x, hx, hresult, hinterpreter⟩, hstatements, hhistory⟩ := hrun
  refine ⟨⟨x, hx, hresult, ?_⟩, hstatements, ?_⟩
  · rw [← hinterpreter, State.interpreter, ← settings_run i p]
  · have hevents := congrArg List.reverse hhistory
    simpa [State.emit, state, Program.statements] using hevents

end Interpreter
end AdaptiveCalc
