import AdaptiveCalc.Evaluation.Machine
import Mathlib.Data.Nat.Notation

/-!
# The depth on the way

The machine counts the depth up where it enters an operand and down where it leaves a node.
Between the two there is a frame that waits, so on the whole way of an evaluation the depth
is the one it has begun with and one more for each frame, and it never passes the limit.
Main statements: `Machine.steps_leave_iff`, the way ends with what the machine computes, and
`Machine.Steps.level_le`.
-/
namespace AdaptiveCalc

@[simp] theorem State.depth_read (s : State) (slot : ℕ) : (s.read slot).2.depth = s.depth := by
  unfold State.read
  split <;> rfl

@[simp] theorem State.depth_write (s : State) (slot : ℕ) (v : Value) :
    (s.write slot v).2.depth = s.depth := by
  unfold State.write
  split <;> rfl

namespace Outcome

@[simp] theorem depth_assign (slot : ℕ) (o : Outcome) :
    (assign slot o).state.depth = o.state.depth - 1 := by
  unfold assign
  split
  · rfl
  · exact congrArg (· - 1) (State.depth_write ..)

@[simp] theorem depth_negate (settings : Settings) (b : Bool) (o : Outcome) :
    (negate settings b o).state.depth = o.state.depth - 1 := by
  unfold negate
  split
  · rfl
  · exact congrArg (· - 1) (State.depth_settling ..)

@[simp] theorem depth_leftFailed (op : Operator) (b : Bool) (r : Node) (e : EvalError)
    (o : Outcome) : (leftFailed op b r e o).state.depth = o.state.depth - 1 := rfl

@[simp] theorem depth_binary (settings : Settings) (op : Operator) (b : Bool) (l : Node)
    (v : Value) (o : Outcome) :
    (binary settings op b l v o).state.depth = o.state.depth - 1 := by
  unfold binary
  split
  · rfl
  · exact congrArg (· - 1) (State.depth_settling ..)

end Outcome

namespace Machine

def state : Machine → State
  | enter _ s _ => s
  | leave o _ => o.state

def frames : Machine → List Frame
  | enter _ _ frames | leave _ frames => frames

/-- One step; there is none behind the outcome that no frame waits for. -/
def tick (settings : Settings) : Machine → Option Machine
  | enter n s frames => some (down settings n s frames)
  | leave _ [] => none
  | leave o (frame :: frames) => some (up settings o frame frames)

/-- What the machine comes to on its way, step by step. -/
inductive Steps (settings : Settings) : Machine → Machine → Prop
  | done (m : Machine) : Steps settings m m
  | step {m k l : Machine} (h : tick settings m = some k) (hs : Steps settings k l) :
      Steps settings m l

/-- The highest that the count of the depth stands before the next step: a node that is let
in is counted as well, also if it has no operand. -/
def level (settings : Settings) : Machine → ℕ
  | enter _ s _ => if settings.maxDepth ≤ s.depth then s.depth else s.depth + 1
  | leave o _ => o.state.depth

variable {settings : Settings} {m k : Machine}

theorem run_eq_of_tick (h : tick settings m = some k) : run settings m = run settings k := by
  cases m with
  | enter n s frames =>
    cases h
    exact run_enter ..
  | leave o frames =>
    cases frames with
    | nil => cases h
    | cons frame frames =>
      cases h
      exact run_leave_cons ..

theorem Steps.run_eq (h : Steps settings m k) : run settings m = run settings k := by
  induction h with
  | done => rfl
  | step h _ ih => exact (run_eq_of_tick h).trans ih

theorem steps_run (settings : Settings) (m : Machine) :
    Steps settings m (leave (run settings m) []) := by
  fun_induction run settings m with
  | case1 n s frames ih => exact .step rfl ih
  | case2 o => exact .done _
  | case3 o frame frames ih => exact .step rfl ih

/-- The way of the machine ends in one place only, and that is what the machine computes. -/
theorem steps_leave_iff {o : Outcome} :
    Steps settings m (leave o []) ↔ o = run settings m := by
  constructor
  · intro h
    rw [h.run_eq, run_leave_nil]
  · intro h
    rw [h]
    exact steps_run settings m

/-- The depth of an evaluation that has begun at the depth `base`. -/
structure Balanced (settings : Settings) (base : ℕ) (m : Machine) : Prop where
  depth_eq : m.state.depth = base + m.frames.length
  depth_le : m.state.depth ≤ max base settings.maxDepth

namespace Balanced
variable {base : ℕ}

theorem down {n : Node} {s : State} {frames : List Frame}
    (h : Balanced settings base (enter n s frames)) :
    Balanced settings base (down settings n s frames) := by
  have heq : s.depth = base + frames.length := h.depth_eq
  have hle : s.depth ≤ max base settings.maxDepth := h.depth_le
  unfold Machine.down
  split
  · exact ⟨heq, hle⟩
  · next hd =>
    have hroom : s.depth + 1 ≤ max base settings.maxDepth := by omega
    cases n with
    | fast | precise => exact ⟨heq, hle⟩
    | read slot =>
      constructor
      · exact (State.depth_read s slot).trans heq
      · exact Nat.le_trans (Nat.le_of_eq (State.depth_read s slot)) hle
    | assign | negate | binary => exact ⟨congrArg (· + 1) heq, hroom⟩

theorem up {o : Outcome} {frame : Frame} {frames : List Frame}
    (h : Balanced settings base (leave o (frame :: frames))) :
    Balanced settings base (up settings o frame frames) := by
  have heq : o.state.depth = base + (frames.length + 1) := h.depth_eq
  have hle : o.state.depth ≤ max base settings.maxDepth := h.depth_le
  have hleave : ∀ o' : Outcome, o'.state.depth = o.state.depth - 1 →
      Balanced settings base (leave o' frames) := by
    intro o' ho'
    constructor <;> simp only [state, Machine.frames] <;> omega
  cases frame with
  | assign slot => exact hleave _ (Outcome.depth_assign ..)
  | negate settled => exact hleave _ (Outcome.depth_negate ..)
  | left op settled r =>
    simp only [Machine.up]
    split
    · exact hleave _ (Outcome.depth_leftFailed ..)
    · exact ⟨heq, hle⟩
  | right op settled l v => exact hleave _ (Outcome.depth_binary ..)

theorem tick (h : Balanced settings base m) (hk : m.tick settings = some k) :
    Balanced settings base k := by
  cases m with
  | enter n s frames =>
    cases hk
    exact h.down
  | leave o frames =>
    cases frames with
    | nil => cases hk
    | cons frame frames =>
      cases hk
      exact h.up

theorem steps (h : Balanced settings base m) (hs : Steps settings m k) :
    Balanced settings base k := by
  induction hs with
  | done => exact h
  | step hk _ ih => exact ih (h.tick hk)

theorem level_le (h : Balanced settings base m) :
    m.level settings ≤ max base settings.maxDepth := by
  have hle := h.depth_le
  cases m with
  | enter n s frames =>
    simp only [level, state] at hle ⊢
    split <;> omega
  | leave o frames => exact hle

end Balanced

/-- On the way of an evaluation the count of the depth does not pass the limit, unless it has
begun behind the limit; then it stays where it is. -/
theorem Steps.level_le {n : Node} {s : State} (h : Steps settings (enter n s []) m) :
    m.level settings ≤ max s.depth settings.maxDepth :=
  have hstart : Balanced settings s.depth (enter n s []) := ⟨rfl, Nat.le_max_left ..⟩
  (hstart.steps h).level_le

end Machine
end AdaptiveCalc
