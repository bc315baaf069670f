import AdaptiveCalc.Proofs.Evaluation.Runs

/-!
# Evaluations within evaluations

An evaluation reads the store and the depth of the state that it begins in, and none of the
events that have led there. So each part of a longer evaluation is a call of its own, on an
interpreter with the store and the depth of that moment, and its events are a stretch of
those of the whole. Main statement: `Evaluates.eq_eval`.
-/
namespace AdaptiveCalc
namespace State

def withPast (s : State) (past : List Event) : State := { s with history := s.history ++ past }

theorem withPast_settling (s : State) (op : Operator) (f : Option Fast.Failure)
    (past : List Event) : (s.settling op f).withPast past = (s.withPast past).settling op f := by
  cases f <;> rfl

def interpreter (s : State) (settings : Settings) : Interpreter :=
  { store := s.store, settings, depth := s.depth }

@[simp] theorem interpreter_emit (s : State) (e : Event) (settings : Settings) :
    (s.emit e).interpreter settings = s.interpreter settings := rfl

end State

variable {settings : Settings} {n : Node} {s : State} {o : Outcome} {xs : List Visit}

theorem Evaluates.withPast (h : Evaluates settings n s o xs) (past : List Event) :
    Evaluates settings n (s.withPast past) ⟨o.result, o.node, o.state.withPast past⟩ xs := by
  induction h with
  | tooDeep hd => exact .tooDeep hd
  | fast hd => exact .fast hd
  | precise hd => exact .precise hd
  | readFailed hd hread => exact .readFailed hd hread
  | read hd hread => exact .read hd hread
  | assignFailed hd _ ih => exact .assignFailed (s := .withPast _ past) hd ih
  | writeFailed hd _ hwrite ih => exact .writeFailed (s := .withPast _ past) hd ih hwrite
  | assign hd _ hwrite ih => exact .assign (s := .withPast _ past) hd ih hwrite
  | negateFailed hd _ ih => exact .negateFailed (s := .withPast _ past) hd ih
  | negate hd _ ha ih =>
    have hsite := Evaluates.negate (s := .withPast _ past) hd ih ha
    rwa [← State.withPast_settling] at hsite
  | leftFailed hd _ ih => exact .leftFailed (s := .withPast _ past) hd ih
  | rightFailed hd _ _ ihl ihr => exact .rightFailed (s := .withPast _ past) hd ihl ihr
  | binary hd _ _ ha ihl ihr =>
    have hsite := Evaluates.binary (s := .withPast _ past) hd ihl ihr ha
    rwa [← State.withPast_settling] at hsite

/-- An evaluation is a call on an interpreter in the state that it begins in. -/
theorem Evaluates.eq_eval (h : Evaluates settings n s o xs) :
    let e := (s.interpreter settings).eval n
    o.result = e.result ∧ o.node = e.subject ∧ o.state.store = e.interpreter.store ∧
      o.state.history = e.events.reverse ++ s.history := by
  have halone := n.evaluates settings (s.interpreter settings).state
  obtain ⟨rfl, -⟩ := h.unique (halone.withPast s.history)
  simp [Interpreter.eval, Interpreter.finish, State.withPast, State.interpreter]

theorem Evaluates.interpreter_eq (h : Evaluates settings n s o xs) :
    o.state.interpreter settings = ((s.interpreter settings).eval n).interpreter := by
  have halone := n.evaluates settings (s.interpreter settings).state
  obtain ⟨rfl, -⟩ := h.unique (halone.withPast s.history)
  simp [Interpreter.eval, Interpreter.finish, State.withPast, State.interpreter]

end AdaptiveCalc
