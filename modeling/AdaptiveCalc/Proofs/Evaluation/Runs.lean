import AdaptiveCalc.Interpreter
import AdaptiveCalc.Proofs.Evaluation.Rules

/-!
# Runs as rules

The statements of a run one after the other, up to the first that fails. What is true
of one evaluation is carried through a run by these rules. Main statement:
`Interpreter.executes`, the interpreter follows the rules.
-/
namespace AdaptiveCalc

structure Ending where
  result : Except EvalError Value
  leading : List Node
  last : Node
  state : State

/-- The endings of runs of the statements `leading` and `last`, the first of them with
the number `index`, and the sites that each of the statements begun comes to. -/
inductive Executes (settings : Settings) :
    ℕ → List Node → Node → State → Ending → List (List Visit) → Prop
  | last {index : ℕ} {n n' : Node} {s t : State} {result : Except EvalError Value}
      {xs : List Visit}
      (hn : Evaluates settings n (s.emit (.resultStatement n)) ⟨result, n', t⟩ xs) :
      Executes settings index [] n s ⟨result, [], n', t⟩ [xs]
  | failed {index : ℕ} {n n' last : Node} {rest : List Node} {s t : State} {x : EvalError}
      {xs : List Visit}
      (hn : Evaluates settings n (s.emit (.statement index n)) ⟨.error x, n', t⟩ xs) :
      Executes settings index (n :: rest) last s ⟨.error x, n' :: rest, last, t⟩ [xs]
  | next {index : ℕ} {n n' last : Node} {rest : List Node} {s t : State} {v : Value}
      {e : Ending} {xs : List Visit} {xss : List (List Visit)}
      (hn : Evaluates settings n (s.emit (.statement index n)) ⟨.ok v, n', t⟩ xs)
      (hrest : Executes settings (index + 1) rest last t e xss) :
      Executes settings index (n :: rest) last s ⟨e.result, n' :: e.leading, e.last, e.state⟩
        (xs :: xss)

theorem Executes.unique {settings : Settings} {index : ℕ} {leading : List Node} {last : Node}
    {s : State} {e₁ e₂ : Ending} {xss₁ xss₂ : List (List Visit)}
    (h₁ : Executes settings index leading last s e₁ xss₁)
    (h₂ : Executes settings index leading last s e₂ xss₂) : e₁ = e₂ ∧ xss₁ = xss₂ := by
  induction h₁ generalizing e₂ xss₂ with
  | last hn =>
    cases h₂ with
    | last hn' =>
      obtain ⟨ho, rfl⟩ := hn.unique hn'
      cases ho
      exact ⟨rfl, rfl⟩
  | failed hn =>
    cases h₂ with
    | failed hn' =>
      obtain ⟨ho, rfl⟩ := hn.unique hn'
      cases ho
      exact ⟨rfl, rfl⟩
    | next hn' _ => cases (hn.unique hn').1
  | next hn _ ih =>
    cases h₂ with
    | failed hn' => cases (hn.unique hn').1
    | next hn' hrest =>
      obtain ⟨ho, rfl⟩ := hn.unique hn'
      cases ho
      obtain ⟨rfl, rfl⟩ := ih hrest
      exact ⟨rfl, rfl⟩

namespace Interpreter

def visitsFrom (settings : Settings) (index : ℕ) (leading : List Node) (last : Node)
    (s : State) : List (List Visit) :=
  match leading with
  | [] => [last.visits settings (s.emit (.resultStatement last))]
  | n :: rest =>
    n.visits settings (s.emit (.statement index n)) ::
      match (n.evaluate settings (s.emit (.statement index n))).result with
      | .error _ => []
      | .ok _ =>
        visitsFrom settings (index + 1) rest last
          (n.evaluate settings (s.emit (.statement index n))).state

/-- The sites that a run comes to, statement by statement. -/
def visits (i : Interpreter) (p : Program) : List (List Visit) :=
  visitsFrom i.settings 0 p.leading p.last (i.state.emit (.begin p.size))

def endingOf (settings : Settings) (last : Node) (l : Leading) : Ending :=
  match l.failure? with
  | some x => ⟨.error x, l.nodes, last, l.state⟩
  | none =>
    let o := last.evaluate settings (l.state.emit (.resultStatement last))
    ⟨o.result, l.nodes, o.node, o.state⟩

theorem runLeading_done (settings : Settings) (index : ℕ) (done todo : List Node) (s : State) :
    runLeading settings index done todo s =
      let l := runLeading settings index [] todo s
      { l with nodes := done.reverse ++ l.nodes } := by
  induction todo generalizing index done s with
  | nil => simp [runLeading]
  | cons n rest ih =>
    simp only [runLeading]
    cases (n.eval settings (s.emit (.statement index n))).result with
    | error x => simp
    | ok v =>
      simp only []
      rw [ih, ih _ [_]]
      simp

theorem executes_from (settings : Settings) (index : ℕ) (leading : List Node) (last : Node)
    (s : State) :
    Executes settings index leading last s
      (endingOf settings last (runLeading settings index [] leading s))
      (visitsFrom settings index leading last s) := by
  induction leading generalizing index s with
  | nil => exact .last (Node.evaluates ..)
  | cons n rest ih =>
    have hn := Node.evaluates settings n (s.emit (.statement index n))
    simp only [runLeading, visitsFrom, Node.eval_eq]
    generalize n.evaluate settings (s.emit (.statement index n)) = o at hn ⊢
    obtain ⟨result, n', t⟩ := o
    cases result with
    | error x => exact .failed hn
    | ok v =>
      have hrest := ih (index + 1) t
      have hnext := Executes.next hn hrest
      simp only []
      rw [runLeading_done]
      generalize runLeading settings (index + 1) [] rest t = l at hrest hnext ⊢
      obtain ⟨failure?, nodes, u⟩ := l
      cases failure? <;> exact hnext

theorem settings_run (i : Interpreter) (p : Program) :
    (i.run p).interpreter.settings = i.settings := by
  simp only [run]
  split <;> rfl

theorem evaluates (i : Interpreter) (n : Node) :
    Evaluates i.settings n i.state
      ⟨(i.eval n).result, (i.eval n).subject,
        ⟨(i.eval n).interpreter.store, (i.eval n).interpreter.depth, (i.eval n).events.reverse⟩⟩
      (n.visits i.settings i.state) := by
  simpa [eval, finish, Node.eval_eq] using n.evaluates i.settings i.state

/-- The interpreter follows the rules. -/
theorem executes (i : Interpreter) (p : Program) :
    Executes i.settings 0 p.leading p.last (i.state.emit (.begin p.size))
      ⟨(i.run p).result, (i.run p).subject.leading, (i.run p).subject.last,
        ⟨(i.run p).interpreter.store, (i.run p).interpreter.depth, (i.run p).events.reverse⟩⟩
      (i.visits p) := by
  have h := executes_from i.settings 0 p.leading p.last (i.state.emit (.begin p.size))
  simp only [run, visits, Node.eval_eq]
  generalize runLeading i.settings 0 [] p.leading (i.state.emit (.begin p.size)) = l at h ⊢
  obtain ⟨failure?, nodes, u⟩ := l
  cases failure? with
  | some x => simpa [endingOf, finish] using h
  | none => simpa [endingOf, finish] using h

end Interpreter
end AdaptiveCalc
