import AdaptiveCalc.Evaluation.Basic

/-!
# A machine for trees of any depth

The machine walks a tree with a list of frames instead of nested calls. A frame is a
node whose operand is being evaluated; leaving the operand puts the node together
again. Main statement: `Node.eval_eq`, the machine computes `Node.evaluate`.
-/
namespace AdaptiveCalc

attribute [local instance (2000)] Zero.ofOfNat0

/-- A node that waits for one of its operands. -/
inductive Frame where
  | assign (slot : Nat)
  | negate (settled : Bool)
  | left (op : Operator) (settled : Bool) (right : Node)
  | right (op : Operator) (settled : Bool) (left : Node) (value : Value)

/-- Where the machine is: before a node, or behind one with its outcome. The
innermost frame comes first. -/
inductive Machine where
  | enter (node : Node) (state : State) (frames : List Frame)
  | leave (outcome : Outcome) (frames : List Frame)

namespace Frame

/-- Bounds the steps that a frame still takes. -/
def work : Frame → Nat
  | assign _ | negate _ | right .. => 1
  | left _ _ r => 3 * r.size + 2

end Frame

namespace Machine

def work : Machine → Nat
  | enter n _ frames => 3 * n.size + (frames.map Frame.work).sum
  | leave _ frames => (frames.map Frame.work).sum

def down (settings : Settings) (n : Node) (s : State) (frames : List Frame) : Machine :=
  if settings.maxDepth ≤ s.depth then leave (.tooDeep settings n s) frames
  else
    match n with
    | .fast k => leave (.leaf n (.ok (.fast k), s)) frames
    | .precise d => leave (.leaf n (.ok (.precise d), s)) frames
    | .read slot => leave (.leaf n (s.read slot)) frames
    | .assign slot e => enter e s.enter (.assign slot :: frames)
    | .negate settled e => enter e s.enter (.negate settled :: frames)
    | .binary op settled l r => enter l s.enter (.left op settled r :: frames)

def up (settings : Settings) (o : Outcome) (frame : Frame) (frames : List Frame) : Machine :=
  match frame with
  | .assign slot => leave (.assign slot o) frames
  | .negate settled => leave (.negate settings settled o) frames
  | .left op settled r =>
    match o.result with
    | .error e => leave (.leftFailed op settled r e o) frames
    | .ok v => enter r o.state (.right op settled o.node v :: frames)
  | .right op settled l v => leave (.binary settings op settled l v o) frames

theorem work_down (settings : Settings) (n : Node) (s : State) (frames : List Frame) :
    (down settings n s frames).work < (enter n s frames).work := by
  have := n.size_pos
  unfold down
  split
  · simp only [work]; omega
  · cases n <;> simp only [work, Node.size, Frame.work, List.map_cons, List.sum_cons] <;> omega

theorem work_up (settings : Settings) (o : Outcome) (frame : Frame) (frames : List Frame) :
    (up settings o frame frames).work < (leave o (frame :: frames)).work := by
  cases frame <;> simp only [up] <;> try split
  all_goals simp only [work, Frame.work, List.map_cons, List.sum_cons]; omega

def run (settings : Settings) : Machine → Outcome
  | enter n s frames => run settings (down settings n s frames)
  | leave o [] => o
  | leave o (frame :: frames) => run settings (up settings o frame frames)
termination_by m => m.work
decreasing_by
  · exact work_down ..
  · exact work_up ..

@[simp] theorem run_enter (settings : Settings) (n : Node) (s : State) (frames : List Frame) :
    run settings (enter n s frames) = run settings (down settings n s frames) := by
  rw [run]

@[simp] theorem run_leave_nil (settings : Settings) (o : Outcome) :
    run settings (leave o []) = o := by
  rw [run]

@[simp] theorem run_leave_cons (settings : Settings) (o : Outcome) (frame : Frame)
    (frames : List Frame) :
    run settings (leave o (frame :: frames)) = run settings (up settings o frame frames) := by
  rw [run]

/-- Whatever waits for it, a node is left with the outcome of its evaluation. -/
theorem run_enter_eq (settings : Settings) (n : Node) (s : State) (frames : List Frame) :
    run settings (enter n s frames) = run settings (leave (n.evaluate settings s) frames) := by
  induction n generalizing s frames with
  | fast | precise | read =>
    rw [run_enter, down, Node.evaluate]
    split <;> rfl
  | assign slot e ih =>
    rw [run_enter, down, Node.evaluate]
    split
    · rfl
    · simp only [ih, run_leave_cons, up]
  | negate settled e ih =>
    rw [run_enter, down, Node.evaluate]
    split
    · rfl
    · simp only [ih, run_leave_cons, up]
  | binary op settled l r ihl ihr =>
    rw [run_enter, down, Node.evaluate]
    split
    · rfl
    · simp only [ihl, run_leave_cons, up]
      cases h : (l.evaluate settings s.enter).result <;> simp only [ihr, run_leave_cons, up]

end Machine

/-- Evaluates a tree of any depth. -/
def Node.eval (settings : Settings) (n : Node) (s : State) : Outcome :=
  Machine.run settings (.enter n s [])

@[simp] theorem Node.eval_eq (settings : Settings) (n : Node) (s : State) :
    n.eval settings s = n.evaluate settings s := by
  rw [Node.eval, Machine.run_enter_eq, Machine.run_leave_nil]

end AdaptiveCalc
