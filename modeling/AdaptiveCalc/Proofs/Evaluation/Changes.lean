import AdaptiveCalc.Proofs.Evaluation.Settling
import AdaptiveCalc.Proofs.Evaluation.Steps
import AdaptiveCalc.Proofs.Store.Kind

/-!
# What a step changes

At every moment the machine works on one whole tree: the node that it is at, within the
frames that wait for it. A step settles one site of this tree, or it takes one slot from
integers to decimals, or it does neither, and what it logs in the same step is this change
and nothing else. Main statement: `Machine.exists_shows_of_tick`.
-/
namespace AdaptiveCalc
namespace Node

/-- The tree with the site at the end of a path settled. -/
def settleAt : Node → List Branch → Node
  | .negate _ e, [] => .negate true e
  | .binary op _ l r, [] => .binary op true l r
  | .assign slot e, .expr :: path => .assign slot (e.settleAt path)
  | .negate b e, .operand :: path => .negate b (e.settleAt path)
  | .binary op b l r, .left :: path => .binary op b (l.settleAt path) r
  | .binary op b l r, .right :: path => .binary op b l (r.settleAt path)
  | n, _ => n

/-- The operator of the site at the end of a path; a negation subtracts. -/
def operatorAt? : Node → List Branch → Option Operator
  | .negate .., [] => some .sub
  | .binary op .., [] => some op
  | .assign _ e, .expr :: path => e.operatorAt? path
  | .negate _ e, .operand :: path => e.operatorAt? path
  | .binary _ _ l _, .left :: path => l.operatorAt? path
  | .binary _ _ _ r, .right :: path => r.operatorAt? path
  | _, _ => none

/-- Settling a site sets its bit and no other. -/
theorem settledAt?_settleAt (n : Node) (path path' : List Branch) :
    (n.settleAt path).settledAt? path' =
      if path' = path then (n.settledAt? path).map fun _ => true else n.settledAt? path' := by
  induction n generalizing path path' with
  | fast | precise | read => simp [settleAt, settledAt?]
  | assign slot e ih =>
    rcases path with - | ⟨- | - | - | -, path⟩ <;>
      rcases path' with - | ⟨- | - | - | -, path'⟩ <;> simp [settleAt, settledAt?, ih]
  | negate b e ih =>
    rcases path with - | ⟨- | - | - | -, path⟩ <;>
      rcases path' with - | ⟨- | - | - | -, path'⟩ <;> simp [settleAt, settledAt?, ih]
  | binary op b l r ihl ihr =>
    rcases path with - | ⟨- | - | - | -, path⟩ <;>
      rcases path' with - | ⟨- | - | - | -, path'⟩ <;> simp [settleAt, settledAt?, ihl, ihr]

end Node

namespace Frame

/-- The way from the node of a frame to the operand that it waits for. -/
def branch : Frame → Branch
  | .assign _ => .expr
  | .negate _ => .operand
  | .left .. => .left
  | .right .. => .right

def plug : Frame → Node → Node
  | .assign slot, n => .assign slot n
  | .negate b, n => .negate b n
  | .left op b r, n => .binary op b n r
  | .right op b l _, n => .binary op b l n

def plugAll (frames : List Frame) (n : Node) : Node := frames.foldl (fun n f => f.plug n) n

def route (frames : List Frame) : List Branch := (frames.map branch).reverse

@[simp] theorem route_cons (f : Frame) (frames : List Frame) :
    route (f :: frames) = route frames ++ [f.branch] := by
  simp [route]

theorem settledAt?_plugAll (frames : List Frame) (n : Node) (path : List Branch) :
    (plugAll frames n).settledAt? (route frames ++ path) = n.settledAt? path := by
  induction frames generalizing n path with
  | nil => rfl
  | cons f frames ih =>
    rw [route_cons, List.append_assoc]
    refine (ih (f.plug n) _).trans ?_
    cases f <;> rfl

theorem operatorAt?_plugAll (frames : List Frame) (n : Node) (path : List Branch) :
    (plugAll frames n).operatorAt? (route frames ++ path) = n.operatorAt? path := by
  induction frames generalizing n path with
  | nil => rfl
  | cons f frames ih =>
    rw [route_cons, List.append_assoc]
    refine (ih (f.plug n) _).trans ?_
    cases f <;> rfl

theorem settleAt_plugAll (frames : List Frame) (n : Node) (path : List Branch) :
    (plugAll frames n).settleAt (route frames ++ path) = plugAll frames (n.settleAt path) := by
  induction frames generalizing n path with
  | nil => rfl
  | cons f frames ih =>
    rw [route_cons, List.append_assoc]
    refine (ih (f.plug n) _).trans (congrArg (plugAll frames) ?_)
    cases f <;> rfl

end Frame

namespace Machine

def tree : Machine → Node
  | enter n _ frames => Frame.plugAll frames n
  | leave o frames => Frame.plugAll frames o.node

/-- The site that the machine comes to with two values in the next step, if there is one. -/
def visit? : Machine → Option Visit
  | leave ⟨.ok v, _, _⟩ (.negate _ :: frames) => some ⟨Frame.route frames, .sub, .fast 0, v⟩
  | leave ⟨.ok w, _, _⟩ (.right op _ _ v :: frames) => some ⟨Frame.route frames, op, v, w⟩
  | _ => none

end Machine

def Store.Demotes (s t : Store) (slot : ℕ) : Prop :=
  s.kind? slot = some .fast ∧ t.kind? slot = some .precise

inductive Change where
  | settle (path : List Branch) (op : Operator) (failure : Fast.Failure)
  | demotion (slot : ℕ)
  deriving DecidableEq, Repr

def Change.record : Change → Record
  | settle _ op failure =>
    ⟨.debug, "binary node settled on precise arithmetic",
      [("op", .text op.symbol.toString), ("failure", .text failure.message)]⟩
  | demotion slot => ⟨.trace, "demoting slot to precise", [("slot", .count slot)]⟩

/-- What is different at two moments, one step of the machine apart. -/
inductive Changes (m k : Machine) : List Change → Prop
  | none (htree : k.tree = m.tree) (hstore : k.state.store = m.state.store) : Changes m k []
  | write {slot : ℕ} {v : Value} (htree : k.tree = m.tree)
      (hwrite : m.state.store.write slot v = .ok k.state.store)
      (hkept : ¬ m.state.store.Demotes k.state.store slot) : Changes m k []
  | demotion {slot : ℕ} {v : Value} (htree : k.tree = m.tree)
      (hwrite : m.state.store.write slot v = .ok k.state.store)
      (hdemotes : m.state.store.Demotes k.state.store slot) : Changes m k [.demotion slot]
  | settle {path : List Branch} {op : Operator} {a b : Int64} {failure : Fast.Failure}
      (hclear : m.tree.settledAt? path = some false) (hop : m.tree.operatorAt? path = some op)
      (hvisit : m.visit? = some ⟨path, op, .fast a, .fast b⟩)
      (hfailure : Fast.apply op a b = .error failure) (htree : k.tree = m.tree.settleAt path)
      (hstore : k.state.store = m.state.store) : Changes m k [.settle path op failure]

/-- The changes between two moments are what the log says in between. -/
structure Shows (m k : Machine) (cs : List Change) : Prop where
  changes : Changes m k cs
  logged : ∃ es, k.state.history = es ++ m.state.history ∧
    records es.reverse = cs.map Change.record

theorem Store.demotes_iff_of_write {s t : Store} {slot : ℕ} {v : Value}
    (h : s.write slot v = .ok t) : s.Demotes t slot ↔ s.demotedBy slot v = true := by
  obtain ⟨c, hc⟩ := exists_contents?_of_write h
  rw [Demotes, kind?, kind?, contents?_of_write h, if_pos rfl, demotedBy, hc]
  cases c <;> cases v <;> simp [Contents.kind, Contents.write, Contents.ofValue, Contents.demotedBy]

/-- A site either goes on as it was, or it settles because two integers have no result. -/
theorem applySite_cases (op : Operator) (precision : ℕ) (b : Bool) (v w : Value) :
    let a := applySite op precision b v w
    (a.settled = b ∧ a.failure? = none) ∨
      ∃ x y failure, b = false ∧ v = .fast x ∧ w = .fast y ∧
        Fast.apply op x y = .error failure ∧ a.settled = true ∧ a.failure? = some failure := by
  cases b with
  | true => exact .inl ⟨rfl, rfl⟩
  | false =>
    cases v with
    | precise d => exact .inl ⟨rfl, rfl⟩
    | fast x =>
      cases w with
      | precise d => exact .inl ⟨rfl, rfl⟩
      | fast y =>
        cases h : Fast.apply op x y with
        | ok n => exact .inl (by simp [applySite, h])
        | error failure => exact .inr ⟨x, y, failure, by simp [applySite, h]⟩

theorem Shows.of_history_eq {m k : Machine} (htree : k.tree = m.tree)
    (hstore : k.state.store = m.state.store) (hhistory : k.state.history = m.state.history) :
    Shows m k [] :=
  ⟨.none htree hstore, [], hhistory, rfl⟩

namespace Machine
variable {settings : Settings} {m k : Machine}

theorem shows_down (settings : Settings) (n : Node) (s : State) (frames : List Frame) :
    Shows (enter n s frames) (down settings n s frames) [] := by
  unfold down
  split
  · exact .of_history_eq rfl rfl rfl
  · cases n with
    | fast | precise | assign | negate | binary => exact .of_history_eq rfl rfl rfl
    | read slot =>
      simp only [State.read]
      cases s.store.read slot with
      | error x => exact .of_history_eq rfl rfl rfl
      | ok v => exact ⟨.none rfl rfl, [.read slot v], rfl, rfl⟩

/-- Bringing a site its operands settles the site or changes nothing. The node of the site is
`root b`, if its bit is `b`. -/
theorem exists_shows_site (root : Bool → Node) {op : Operator} {precision : ℕ} {b : Bool}
    {v w : Value} {frames : List Frame} (hbit : (root b).settledAt? [] = some b)
    (hop : (root b).operatorAt? [] = some op) (hsettle : (root b).settleAt [] = root true)
    (hvisit : m.visit? = some ⟨Frame.route frames, op, v, w⟩)
    (hm : m.tree = Frame.plugAll frames (root b))
    (hk : k.tree = Frame.plugAll frames (root (applySite op precision b v w).settled))
    (hstate : k.state = (m.state.settling op (applySite op precision b v w).failure?).leave) :
    ∃ cs, Shows m k cs := by
  rcases applySite_cases op precision b v w with
    ⟨hsame, hnone⟩ | ⟨x, y, failure, rfl, rfl, rfl, hfailure, hset, hsome⟩
  · rw [hsame] at hk
    rw [hnone] at hstate
    refine ⟨[], .of_history_eq (hk.trans hm.symm) ?_ ?_⟩ <;> rw [hstate] <;> rfl
  · rw [hset] at hk
    rw [hsome] at hstate
    have hclear := Frame.settledAt?_plugAll frames (root false) []
    have hoperator := Frame.operatorAt?_plugAll frames (root false) []
    have hplugged := Frame.settleAt_plugAll frames (root false) []
    rw [List.append_nil, ← hm] at hclear hoperator hplugged
    refine ⟨_, .settle (hclear.trans hbit) (hoperator.trans hop) hvisit hfailure ?_ ?_,
      [.settle op failure], ?_, rfl⟩
    · rw [hk, hplugged, hsettle]
    · rw [hstate]
      rfl
    · rw [hstate]
      rfl

theorem exists_shows_assign (settings : Settings) (slot : ℕ) (v : Value) (n : Node) (s : State)
    (frames : List Frame) : ∃ cs, Shows (leave ⟨.ok v, n, s⟩ (.assign slot :: frames))
      (up settings ⟨.ok v, n, s⟩ (.assign slot) frames) cs := by
  simp only [up, Outcome.assign, State.write]
  cases hwrite : s.store.write slot v with
  | error x => exact ⟨[], .of_history_eq rfl rfl rfl⟩
  | ok t =>
    have hiff := Store.demotes_iff_of_write hwrite
    by_cases hdemotes : s.store.Demotes t slot
    · refine ⟨_, .demotion rfl hwrite hdemotes, [.write slot v true], ?_, rfl⟩
      rw [hiff.1 hdemotes]
      rfl
    · refine ⟨_, .write rfl hwrite hdemotes, [.write slot v false], ?_, rfl⟩
      rw [Bool.eq_false_iff.2 (mt hiff.2 hdemotes)]
      rfl

theorem exists_shows_up (settings : Settings) (o : Outcome) (frame : Frame)
    (frames : List Frame) :
    ∃ cs, Shows (leave o (frame :: frames)) (up settings o frame frames) cs := by
  obtain ⟨result, n, s⟩ := o
  cases frame with
  | assign slot =>
    cases result with
    | error x => exact ⟨[], .of_history_eq rfl rfl rfl⟩
    | ok v => exact exists_shows_assign settings slot v n s frames
  | negate b =>
    cases result with
    | error x => exact ⟨[], .of_history_eq rfl rfl rfl⟩
    | ok v => exact exists_shows_site (fun b => .negate b n) rfl rfl rfl rfl rfl rfl rfl
  | left op b r =>
    cases result with
    | error x => exact ⟨[], .of_history_eq rfl rfl rfl⟩
    | ok v => exact ⟨[], .of_history_eq rfl rfl rfl⟩
  | right op b l v =>
    cases result with
    | error x => exact ⟨[], .of_history_eq rfl rfl rfl⟩
    | ok w => exact exists_shows_site (fun b => .binary op b l n) rfl rfl rfl rfl rfl rfl rfl

/-- Every step logs what it changes. -/
theorem exists_shows_of_tick (h : m.tick settings = some k) : ∃ cs, Shows m k cs := by
  cases m with
  | enter n s frames =>
    cases h
    exact ⟨[], shows_down settings n s frames⟩
  | leave o frames =>
    cases frames with
    | nil => cases h
    | cons frame frames =>
      cases h
      exact exists_shows_up settings o frame frames

end Machine
end AdaptiveCalc
