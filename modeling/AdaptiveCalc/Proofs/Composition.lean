import AdaptiveCalc.Proofs.Evaluation.Depth
import AdaptiveCalc.Proofs.Evaluation.Stages

/-!
# Programs compose

A program may be cut anywhere between two of its statements. Running it is running the first
part and, unless that fails, the second part on the interpreter as the first has left it. Main
statement: `programs_compose`.
-/
namespace AdaptiveCalc

/-- What runs of some statements leave behind, besides their events. -/
structure Upshot where
  result : Except EvalError Value
  statements : List Node
  interpreter : Interpreter

def Evaluation.upshot (e : Evaluation Program) : Upshot :=
  ⟨e.result, e.subject.statements, e.interpreter⟩

namespace Program

theorem exists_ofStatements_iff {nodes : List Node} :
    (∃ p, ofStatements nodes = .ok p) ↔ nodes ≠ [] := by
  constructor
  · rintro ⟨p, hp⟩ rfl
    cases hp
  · intro h
    exact ⟨_, ofStatements_of_ne_nil h⟩

end Program

namespace Interpreter

def withStore (i : Interpreter) (store : Store) : Interpreter :=
  { store, settings := i.settings, depth := i.depth }

/-- One program and then, unless it fails, another on a new interpreter with its store. -/
def runBoth (i : Interpreter) (p q : Program) : Upshot :=
  let first := i.run p
  match first.result with
  | .error e => ⟨.error e, first.subject.statements ++ q.statements, first.interpreter⟩
  | .ok _ =>
    let second := (i.withStore first.interpreter.store).run q
    ⟨second.result, first.subject.statements ++ second.subject.statements, second.interpreter⟩

theorem interpreter_run (i : Interpreter) (p : Program) :
    (i.run p).interpreter = i.withStore (i.run p).interpreter.store := by
  rw [withStore, ← i.settings_run p, ← (i.depthLimited_run p).depth]

theorem upshot_run_of_error {i : Interpreter} {p q r : Program} {e : EvalError}
    (hr : r.statements = p.statements ++ q.statements) (hp : (i.run p).result = .error e) :
    (i.run r).upshot =
      ⟨.error e, (i.run p).subject.statements ++ q.statements, (i.run p).interpreter⟩ := by
  have hfirst := i.consistsOf_run p
  have hwhole := i.consistsOf_run r
  obtain ⟨x, hx, hresult, hinterpreter⟩ := hfirst.ending
  have hfailed : x.evaluation.result = .error e := hresult.symm.trans hp
  rw [hr, stages_append_of_error hx hfailed] at hwhole
  obtain ⟨y, hy, hresult', hinterpreter'⟩ := hwhole.ending
  obtain rfl : x = y := Option.some.inj (hx.symm.trans hy)
  have hlength := i.length_stages_le p.statements
  rw [Evaluation.upshot, hresult', hfailed, hinterpreter', ← hinterpreter, hwhole.statements, hr,
    List.drop_append_of_le_length hlength, ← List.append_assoc, ← hfirst.statements]

theorem upshot_run_of_ok {i : Interpreter} {p q r : Program} {v : Value}
    (hr : r.statements = p.statements ++ q.statements) (hp : (i.run p).result = .ok v) :
    let second := (i.run p).interpreter.run q
    (i.run r).upshot = ⟨second.result,
      (i.run p).subject.statements ++ second.subject.statements, second.interpreter⟩ := by
  intro second
  have hfirst := i.consistsOf_run p
  have hsecond : ConsistsOf q second _ := (i.run p).interpreter.consistsOf_run q
  have hwhole := i.consistsOf_run r
  obtain ⟨x, hx, hresult, hinterpreter⟩ := hfirst.ending
  obtain ⟨happend, hlength⟩ := stages_append_of_ok hx (hresult.symm.trans hp) q.statements
  rw [hr, happend, ← hinterpreter] at hwhole
  obtain ⟨y, hy, hresult', hinterpreter'⟩ := hsecond.ending
  obtain ⟨z, hz, hresult'', hinterpreter''⟩ := hwhole.ending
  rw [List.getLast?_append_of_ne_nil _ (by rintro hnil; simp [hnil] at hy), hy] at hz
  obtain rfl := Option.some.inj hz
  have hdone : (i.run p).subject.statements =
      (i.stages p.statements).map (·.evaluation.subject) := by
    rw [hfirst.statements, hlength, List.drop_length, List.append_nil]
  rw [Evaluation.upshot, hresult'', hinterpreter'', ← hresult', ← hinterpreter', hwhole.statements,
    hr, hdone, hsecond.statements, List.map_append, List.length_append, hlength,
    List.drop_length_add_append, List.append_assoc]

theorem upshot_run {p q r : Program} (hr : r.statements = p.statements ++ q.statements)
    (i : Interpreter) : (i.run r).upshot = i.runBoth p q := by
  cases hp : (i.run p).result with
  | error e =>
    simp only [runBoth, hp]
    exact upshot_run_of_error hr hp
  | ok v =>
    simp only [runBoth, hp]
    rw [← interpreter_run]
    exact upshot_run_of_ok hr hp

end Interpreter

/-- A list of statements is a program if it is not empty, and the program has the statements
as they are. A run of a list that is cut in two is a run of the first part and, if and only if
that succeeds, one of the second part with the store and the settings of the first. -/
theorem programs_compose :
    (∀ nodes : List Node, ((∃ p, Program.ofStatements nodes = .ok p) ↔ nodes ≠ []) ∧
      ∀ p, Program.ofStatements nodes = .ok p → p.statements = nodes) ∧
    ∀ xs ys : List Node, xs ≠ [] → ys ≠ [] → ∃ p q r, Program.ofStatements xs = .ok p ∧
      Program.ofStatements ys = .ok q ∧ Program.ofStatements (xs ++ ys) = .ok r ∧
      ∀ i : Interpreter, (i.run r).upshot = i.runBoth p q := by
  refine ⟨fun nodes => ⟨Program.exists_ofStatements_iff, fun p => ?_⟩, fun xs ys hxs hys => ?_⟩
  · exact Program.statements_of_ofStatements
  obtain ⟨p, hp⟩ := Program.exists_ofStatements_iff.2 hxs
  obtain ⟨q, hq⟩ := Program.exists_ofStatements_iff.2 hys
  obtain ⟨r, hr⟩ := Program.exists_ofStatements_iff.2 (List.append_ne_nil_of_left_ne_nil hxs ys)
  refine ⟨p, q, r, hp, hq, hr, fun i => Interpreter.upshot_run ?_ i⟩
  rw [Program.statements_of_ofStatements hp, Program.statements_of_ofStatements hq,
    Program.statements_of_ofStatements hr]

/-- The second part fails in its first statement; the value written by the first part stays. -/
theorem programs_compose_failing :
    let i : Interpreter := { store := ⟨#[{ name := "x" }]⟩ }
    let xs : List Node := [.assign 0 (.fast 1)]
    let ys : List Node := [.binary .div false (.read 0) (.fast 0), .fast 7]
    ∃ p q r, Program.ofStatements xs = .ok p ∧ Program.ofStatements ys = .ok q ∧
      Program.ofStatements (xs ++ ys) = .ok r ∧ (i.run r).upshot = i.runBoth p q ∧
      (i.run r).upshot.result = .error .divisionByZero ∧
      (i.run r).interpreter.store.read 0 = .ok (.fast 1) := by
  intro i xs ys
  obtain ⟨p, q, r, hp, hq, hr, hrun⟩ := programs_compose.2 xs ys nofun nofun
  refine ⟨p, q, r, hp, hq, hr, hrun i, ?_⟩
  cases hr
  decide +kernel

end AdaptiveCalc
