import AdaptiveCalc.Proofs.Evaluation.Depth
import AdaptiveCalc.Proofs.Evaluation.Steps

/-!
# The life of an interpreter

An interpreter counts the depth while it works and has the count back where it was when the
call is over, whatever the call and however it ends. So nothing is left of the calls before
but the store: an interpreter that has gone through any calls does what a new one does that
is given the store. Main statement: `interpreter_keeps_only_store`.
-/
namespace AdaptiveCalc

/-- The statements of which a run begins the evaluation, each with the state that it begins in;
the first of the statements `leading` and `last` has the number `index`. -/
inductive Begins (settings : Settings) : ℕ → List Node → Node → State → Node → State → Prop
  | last {index : ℕ} {last : Node} {s : State} :
      Begins settings index [] last s last (s.emit (.resultStatement last))
  | first {index : ℕ} {n last : Node} {rest : List Node} {s : State} :
      Begins settings index (n :: rest) last s n (s.emit (.statement index n))
  | next {index : ℕ} {n last m : Node} {rest : List Node} {s t : State} {v : Value}
      (hn : (n.eval settings (s.emit (.statement index n))).result = .ok v)
      (hrest : Begins settings (index + 1) rest last
        (n.eval settings (s.emit (.statement index n))).state m t) :
      Begins settings index (n :: rest) last s m t

section
variable {settings : Settings} {index : ℕ} {leading : List Node} {last n : Node} {s t : State}

theorem Begins.depth_eq (h : Begins settings index leading last s n t) : t.depth = s.depth := by
  induction h with
  | last | first => rfl
  | @next index n _ _ _ s _ _ _ _ ih =>
    have hn := (n.evaluates settings (s.emit (.statement index n))).depth_eq
    rw [← Node.eval_eq] at hn
    exact ih.trans hn

theorem Evaluates.outcome_eq {o : Outcome} {xs : List Visit} (h : Evaluates settings n s o xs) :
    n.eval settings s = o := by
  rw [Node.eval_eq]
  exact h.eq_evaluate.1

/-- A run ends where the evaluation that it has begun last ends. -/
theorem Executes.exists_begins {e : Ending} {xss : List (List Visit)}
    (h : Executes settings index leading last s e xss) :
    ∃ m t, Begins settings index leading last s m t ∧ (m.eval settings t).result = e.result ∧
      (m.eval settings t).state = e.state := by
  induction h with
  | last hn =>
    have ho := hn.outcome_eq
    exact ⟨_, _, .last, congrArg Outcome.result ho, congrArg Outcome.state ho⟩
  | failed hn =>
    have ho := hn.outcome_eq
    exact ⟨_, _, .first, congrArg Outcome.result ho, congrArg Outcome.state ho⟩
  | next hn _ ih =>
    have ho := hn.outcome_eq
    obtain ⟨m, t, hbegins, hresult, hstate⟩ := ih
    refine ⟨m, t, .next (congrArg Outcome.result ho) ?_, hresult, hstate⟩
    rw [ho]
    exact hbegins

end

namespace Interpreter

/-- A call on an interpreter. A program is run for its value or for the text of its value. -/
inductive Call where
  | eval (n : Node)
  | run (p : Program)
  | runText (p : Program)

/-- What a call gives back besides the interpreter: a value or a text, the trees as the call
leaves them, and what it has done. -/
structure Reply where
  result : Except EvalError (Value ⊕ String)
  trees : List Node
  events : List Event

namespace Call

def on (i : Interpreter) : Call → Reply × Interpreter
  | eval n =>
    let e := i.eval n
    (⟨e.result.map .inl, [e.subject], e.events⟩, e.interpreter)
  | run p =>
    let e := i.run p
    (⟨e.result.map .inl, e.subject.statements, e.events⟩, e.interpreter)
  | runText p =>
    let e := i.run p
    (⟨e.text.map .inr, e.subject.statements, e.events⟩, e.interpreter)

/-- The machines that a call comes to, in the evaluations that it begins. -/
inductive Passes (i : Interpreter) : Call → Machine → Prop
  | eval {n : Node} {m : Machine} (h : Machine.Steps i.settings (.enter n i.state []) m) :
      Passes i (.eval n) m
  | run {p : Program} {n : Node} {s : State} {m : Machine}
      (hn : Begins i.settings 0 p.leading p.last (i.state.emit (.begin p.size)) n s)
      (h : Machine.Steps i.settings (.enter n s []) m) : Passes i (.run p) m
  | runText {p : Program} {m : Machine} (h : Passes i (.run p) m) : Passes i (.runText p) m

variable {i : Interpreter} {c : Call} {m : Machine}

theorem Passes.level_le (h : c.Passes i m) :
    m.level i.settings ≤ max i.depth i.settings.maxDepth := by
  induction h with
  | eval h => exact h.level_le
  | run hn h =>
    have hle := h.level_le
    rw [hn.depth_eq] at hle
    exact hle
  | runText _ ih => exact ih

theorem depth_on (c : Call) (i : Interpreter) : (c.on i).2.depth = i.depth := by
  cases c with
  | eval n => exact (i.depthLimited_eval n).depth
  | run p | runText p => exact (i.depthLimited_run p).depth

theorem settings_on (c : Call) (i : Interpreter) : (c.on i).2.settings = i.settings := by
  cases c with
  | eval n => rfl
  | run p | runText p => exact i.settings_run p

/-- The way of a call leads to the outcome that the store of the interpreter is taken from. -/
theorem exists_passes_leave (c : Call) (i : Interpreter) :
    ∃ o : Outcome, c.Passes i (.leave o []) ∧ (c.on i).2.store = o.state.store := by
  have hrun : ∀ p, ∃ o : Outcome, (Call.run p).Passes i (.leave o []) ∧
      (i.run p).interpreter.store = o.state.store := by
    intro p
    obtain ⟨n, s, hn, -, hstate⟩ := (i.executes p).exists_begins
    exact ⟨_, .run hn (Machine.steps_run ..), (congrArg State.store hstate).symm⟩
  cases c with
  | eval n => exact ⟨_, .eval (Machine.steps_run ..), rfl⟩
  | run p => exact hrun p
  | runText p =>
    obtain ⟨o, ho, hstore⟩ := hrun p
    exact ⟨o, .runText ho, hstore⟩

end Call

def after (i : Interpreter) (calls : List Call) : Interpreter :=
  calls.foldl (fun i c => (c.on i).2) i

theorem depth_after (i : Interpreter) (calls : List Call) : (i.after calls).depth = i.depth := by
  induction calls generalizing i with
  | nil => rfl
  | cons c calls ih => exact (ih _).trans (c.depth_on i)

theorem settings_after (i : Interpreter) (calls : List Call) :
    (i.after calls).settings = i.settings := by
  induction calls generalizing i with
  | nil => rfl
  | cons c calls ih => exact (ih _).trans (c.settings_on i)

theorem eq_new {i : Interpreter} {settings : Settings} (hsettings : i.settings = settings)
    (hdepth : i.depth = 0) : i = { store := i.store, settings } := by
  rw [← hsettings, ← hdepth]

end Interpreter

/-- After any calls on a new interpreter, and however they have ended, the depth is zero
again. The next call begins with it, does not count it past the limit, has it back at the
end, and gives what it gives on a new interpreter with the store of that moment. -/
theorem interpreter_keeps_only_store (store : Store) (settings : Settings)
    (calls : List Interpreter.Call) (c : Interpreter.Call) :
    let i := ({ store, settings } : Interpreter).after calls
    i.depth = 0 ∧ (c.on i).2.depth = 0 ∧
      (∀ m, c.Passes i m → m.level settings ≤ settings.maxDepth) ∧
      (∃ o : Outcome, c.Passes i (.leave o []) ∧
        (c.on i).2 = { store := o.state.store, settings }) ∧
      c.on i = c.on { store := i.store, settings } := by
  intro i
  have hdepth : i.depth = 0 := Interpreter.depth_after _ calls
  have hsettings : i.settings = settings := Interpreter.settings_after _ calls
  have hdepth' : (c.on i).2.depth = 0 := (c.depth_on i).trans hdepth
  have hsettings' : (c.on i).2.settings = settings := (c.settings_on i).trans hsettings
  obtain ⟨o, ho, hstore⟩ := c.exists_passes_leave i
  refine ⟨hdepth, hdepth', ?_, ⟨o, ho, ?_⟩, congrArg c.on (Interpreter.eq_new hsettings hdepth)⟩
  · intro m hm
    have hle := hm.level_le
    rw [hsettings, hdepth, Nat.zero_max] at hle
    exact hle
  · rw [← hstore]
    exact Interpreter.eq_new hsettings' hdepth'

end AdaptiveCalc
