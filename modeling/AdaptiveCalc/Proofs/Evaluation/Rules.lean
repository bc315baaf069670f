import AdaptiveCalc.Evaluation.Basic
import Mathlib.Data.Nat.Notation
import Mathlib.Tactic.SplitIfs

/-!
# Evaluation as rules

The evaluator written as inference rules, one for each way in which a node may end, so
that a law of evaluation is proved rule by rule. A derivation also lists the sites whose
operands both had values: what a site was brought decides whether it settles. Main
statement: `Node.evaluates`, the evaluator follows the rules.
-/
namespace AdaptiveCalc

inductive Branch where
  | expr
  | operand
  | left
  | right
  deriving DecidableEq, Repr

/-- A site and the values of its operands. The path leads to the site from the root. -/
structure Visit where
  path : List Branch
  op : Operator
  left : Value
  right : Value
  deriving DecidableEq, Repr

namespace Visit

def below (b : Branch) (x : Visit) : Visit := { x with path := b :: x.path }

@[simp] theorem path_below (b : Branch) (x : Visit) : (x.below b).path = b :: x.path := rfl
@[simp] theorem op_below (b : Branch) (x : Visit) : (x.below b).op = x.op := rfl
@[simp] theorem left_below (b : Branch) (x : Visit) : (x.below b).left = x.left := rfl
@[simp] theorem right_below (b : Branch) (x : Visit) : (x.below b).right = x.right := rfl

end Visit

/-- Why two values have no result of 64 bits, if both are integers and have none. -/
def Value.failure? (op : Operator) : Value → Value → Option Fast.Failure
  | .fast a, .fast b =>
    match Fast.apply op a b with
    | .ok _ => none
    | .error failure => some failure
  | _, _ => none

theorem Value.failure?_eq_some_iff {op : Operator} {v w : Value} {f : Fast.Failure} :
    Value.failure? op v w = some f ↔
      ∃ a b, v = .fast a ∧ w = .fast b ∧ Fast.apply op a b = .error f := by
  constructor
  · intro h
    unfold Value.failure? at h
    split at h
    · next a b =>
      split at h
      · cases h
      · next failure hf => cases h; exact ⟨a, b, rfl, rfl, hf⟩
    · cases h
  · rintro ⟨a, b, rfl, rfl, h⟩
    simp [Value.failure?, h]

theorem result_applySite (op : Operator) (precision : ℕ) (settled : Bool) (v w : Value) :
    (applySite op precision settled v w).result =
      if settled then Value.applyPrecise op precision v w else Value.apply op precision v w := by
  cases settled with
  | true => rfl
  | false =>
    cases v <;> cases w <;> try rfl
    next a b =>
      simp only [applySite, Value.apply, Bool.false_eq_true, if_false]
      cases Fast.apply op a b <;> rfl

theorem settled_applySite (op : Operator) (precision : ℕ) (settled : Bool) (v w : Value) :
    (applySite op precision settled v w).settled =
      (settled || (Value.failure? op v w).isSome) := by
  cases settled with
  | true => rfl
  | false =>
    cases v <;> cases w <;> try rfl
    next a b =>
      simp only [applySite, Value.failure?, Bool.false_or]
      cases Fast.apply op a b <;> rfl

/-- The sites of a tree that an evaluation comes to with two values, in their order. -/
def Node.visits (settings : Settings) (n : Node) (s : State) : List Visit :=
  if settings.maxDepth ≤ s.depth then []
  else
    match n with
    | .fast _ | .precise _ | .read _ => []
    | .assign _ e => (e.visits settings s.enter).map (Visit.below .expr)
    | .negate _ e =>
      (e.visits settings s.enter).map (Visit.below .operand) ++
        match (e.evaluate settings s.enter).result with
        | .error _ => []
        | .ok v => [⟨[], .sub, .fast 0, v⟩]
    | .binary op _ l r =>
      let o := l.evaluate settings s.enter
      (l.visits settings s.enter).map (Visit.below .left) ++
        match o.result with
        | .error _ => []
        | .ok v =>
          (r.visits settings o.state).map (Visit.below .right) ++
            match (r.evaluate settings o.state).result with
            | .error _ => []
            | .ok w => [⟨[], op, v, w⟩]

/-- The outcomes of evaluations, with the sites they come to. -/
inductive Evaluates (settings : Settings) : Node → State → Outcome → List Visit → Prop
  | tooDeep {n : Node} {s : State} (hd : settings.maxDepth ≤ s.depth) :
      Evaluates settings n s ⟨.error (.depthExceeded settings.maxDepth), n, s⟩ []
  | fast {k : Int64} {s : State} (hd : s.depth < settings.maxDepth) :
      Evaluates settings (.fast k) s ⟨.ok (.fast k), .fast k, s⟩ []
  | precise {d : Decimal} {s : State} (hd : s.depth < settings.maxDepth) :
      Evaluates settings (.precise d) s ⟨.ok (.precise d), .precise d, s⟩ []
  | readFailed {slot : ℕ} {s : State} {x : EvalError} (hd : s.depth < settings.maxDepth)
      (hread : s.store.read slot = .error x) :
      Evaluates settings (.read slot) s ⟨.error x, .read slot, s⟩ []
  | read {slot : ℕ} {s : State} {v : Value} (hd : s.depth < settings.maxDepth)
      (hread : s.store.read slot = .ok v) :
      Evaluates settings (.read slot) s ⟨.ok v, .read slot, s.emit (.read slot v)⟩ []
  | assignFailed {slot : ℕ} {e e' : Node} {s t : State} {x : EvalError} {xs : List Visit}
      (hd : s.depth < settings.maxDepth) (he : Evaluates settings e s.enter ⟨.error x, e', t⟩ xs) :
      Evaluates settings (.assign slot e) s ⟨.error x, .assign slot e', t.leave⟩
        (xs.map (Visit.below .expr))
  | writeFailed {slot : ℕ} {e e' : Node} {s t : State} {v : Value} {x : EvalError}
      {xs : List Visit} (hd : s.depth < settings.maxDepth)
      (he : Evaluates settings e s.enter ⟨.ok v, e', t⟩ xs)
      (hwrite : t.store.write slot v = .error x) :
      Evaluates settings (.assign slot e) s ⟨.error x, .assign slot e', t.leave⟩
        (xs.map (Visit.below .expr))
  | assign {slot : ℕ} {e e' : Node} {s t : State} {v : Value} {store : Store} {xs : List Visit}
      (hd : s.depth < settings.maxDepth) (he : Evaluates settings e s.enter ⟨.ok v, e', t⟩ xs)
      (hwrite : t.store.write slot v = .ok store) :
      Evaluates settings (.assign slot e) s
        ⟨.ok v, .assign slot e',
          ({ t with store }.emit (.write slot v (t.store.demotedBy slot v))).leave⟩
        (xs.map (Visit.below .expr))
  | negateFailed {b : Bool} {e e' : Node} {s t : State} {x : EvalError} {xs : List Visit}
      (hd : s.depth < settings.maxDepth) (he : Evaluates settings e s.enter ⟨.error x, e', t⟩ xs) :
      Evaluates settings (.negate b e) s ⟨.error x, .negate b e', t.leave⟩
        (xs.map (Visit.below .operand))
  | negate {b : Bool} {e e' : Node} {s t : State} {v : Value} {a : Application} {xs : List Visit}
      (hd : s.depth < settings.maxDepth) (he : Evaluates settings e s.enter ⟨.ok v, e', t⟩ xs)
      (ha : applySite .sub settings.divisionPrecision b (.fast 0) v = a) :
      Evaluates settings (.negate b e) s
        ⟨a.result, .negate a.settled e', (t.settling .sub a.failure?).leave⟩
        (xs.map (Visit.below .operand) ++ [⟨[], .sub, .fast 0, v⟩])
  | leftFailed {op : Operator} {b : Bool} {l l' r : Node} {s t : State} {x : EvalError}
      {xs : List Visit} (hd : s.depth < settings.maxDepth)
      (hl : Evaluates settings l s.enter ⟨.error x, l', t⟩ xs) :
      Evaluates settings (.binary op b l r) s ⟨.error x, .binary op b l' r, t.leave⟩
        (xs.map (Visit.below .left))
  | rightFailed {op : Operator} {b : Bool} {l l' r r' : Node} {s t u : State} {v : Value}
      {x : EvalError} {xs ys : List Visit} (hd : s.depth < settings.maxDepth)
      (hl : Evaluates settings l s.enter ⟨.ok v, l', t⟩ xs)
      (hr : Evaluates settings r t ⟨.error x, r', u⟩ ys) :
      Evaluates settings (.binary op b l r) s ⟨.error x, .binary op b l' r', u.leave⟩
        (xs.map (Visit.below .left) ++ ys.map (Visit.below .right))
  | binary {op : Operator} {b : Bool} {l l' r r' : Node} {s t u : State} {v w : Value}
      {a : Application} {xs ys : List Visit} (hd : s.depth < settings.maxDepth)
      (hl : Evaluates settings l s.enter ⟨.ok v, l', t⟩ xs)
      (hr : Evaluates settings r t ⟨.ok w, r', u⟩ ys)
      (ha : applySite op settings.divisionPrecision b v w = a) :
      Evaluates settings (.binary op b l r) s
        ⟨a.result, .binary op a.settled l' r', (u.settling op a.failure?).leave⟩
        (xs.map (Visit.below .left) ++ (ys.map (Visit.below .right) ++ [⟨[], op, v, w⟩]))

/-- The evaluator follows the rules. -/
theorem Node.evaluates (settings : Settings) (n : Node) (s : State) :
    Evaluates settings n s (n.evaluate settings s) (n.visits settings s) := by
  induction n generalizing s with
  | fast k =>
    rw [Node.evaluate, Node.visits]
    split_ifs with hd
    · exact .tooDeep hd
    · exact .fast (Nat.not_le.1 hd)
  | precise d =>
    rw [Node.evaluate, Node.visits]
    split_ifs with hd
    · exact .tooDeep hd
    · exact .precise (Nat.not_le.1 hd)
  | read slot =>
    rw [Node.evaluate, Node.visits]
    split_ifs with hd
    · exact .tooDeep hd
    · cases hread : s.store.read slot with
      | error x =>
        simp only [Outcome.leaf, State.read, hread]
        exact .readFailed (Nat.not_le.1 hd) hread
      | ok v =>
        simp only [Outcome.leaf, State.read, hread]
        exact .read (Nat.not_le.1 hd) hread
  | assign slot e ih =>
    have he := ih s.enter
    rw [Node.evaluate, Node.visits]
    split_ifs with hd
    · exact .tooDeep hd
    · generalize e.evaluate settings s.enter = o at he ⊢
      obtain ⟨result, e', t⟩ := o
      cases result with
      | error x => exact .assignFailed (Nat.not_le.1 hd) he
      | ok v =>
        cases hwrite : t.store.write slot v with
        | error x =>
          simp only [Outcome.assign, State.write, hwrite]
          exact .writeFailed (Nat.not_le.1 hd) he hwrite
        | ok store =>
          simp only [Outcome.assign, State.write, hwrite]
          exact .assign (Nat.not_le.1 hd) he hwrite
  | negate b e ih =>
    have he := ih s.enter
    rw [Node.evaluate, Node.visits]
    split_ifs with hd
    · exact .tooDeep hd
    · generalize e.evaluate settings s.enter = o at he ⊢
      obtain ⟨result, e', t⟩ := o
      cases result with
      | error x =>
        simp only [List.append_nil]
        exact .negateFailed (Nat.not_le.1 hd) he
      | ok v => exact .negate (Nat.not_le.1 hd) he rfl
  | binary op b l r ihl ihr =>
    have hl := ihl s.enter
    rw [Node.evaluate, Node.visits]
    split_ifs with hd
    · exact .tooDeep hd
    · generalize l.evaluate settings s.enter = o at hl ⊢
      obtain ⟨result, l', t⟩ := o
      cases result with
      | error x =>
        simp only [List.append_nil]
        exact .leftFailed (Nat.not_le.1 hd) hl
      | ok v =>
        have hr := ihr t
        simp only
        generalize r.evaluate settings t = o at hr ⊢
        obtain ⟨result, r', u⟩ := o
        cases result with
        | error x =>
          simp only [List.append_nil]
          exact .rightFailed (Nat.not_le.1 hd) hl hr
        | ok w => exact .binary (Nat.not_le.1 hd) hl hr rfl

theorem Evaluates.eq_evaluate {settings : Settings} {n : Node} {s : State} {o : Outcome}
    {xs : List Visit} (h : Evaluates settings n s o xs) :
    n.evaluate settings s = o ∧ n.visits settings s = xs := by
  induction h with
  | @tooDeep n s hd => cases n <;> exact ⟨if_pos hd, if_pos hd⟩
  | fast hd => exact ⟨if_neg (Nat.not_le.2 hd), if_neg (Nat.not_le.2 hd)⟩
  | precise hd => exact ⟨if_neg (Nat.not_le.2 hd), if_neg (Nat.not_le.2 hd)⟩
  | readFailed hd hread =>
    rw [Node.evaluate, Node.visits, if_neg (Nat.not_le.2 hd), if_neg (Nat.not_le.2 hd)]
    simp only [Outcome.leaf, State.read, hread, and_self]
  | read hd hread =>
    rw [Node.evaluate, Node.visits, if_neg (Nat.not_le.2 hd), if_neg (Nat.not_le.2 hd)]
    simp only [Outcome.leaf, State.read, hread, and_self]
  | assignFailed hd _ ih =>
    rw [Node.evaluate, Node.visits, if_neg (Nat.not_le.2 hd), if_neg (Nat.not_le.2 hd),
      ih.1, ih.2]
    exact ⟨rfl, rfl⟩
  | writeFailed hd _ hwrite ih =>
    rw [Node.evaluate, Node.visits, if_neg (Nat.not_le.2 hd), if_neg (Nat.not_le.2 hd),
      ih.1, ih.2]
    simp only [Outcome.assign, State.write, hwrite, and_self]
  | assign hd _ hwrite ih =>
    rw [Node.evaluate, Node.visits, if_neg (Nat.not_le.2 hd), if_neg (Nat.not_le.2 hd),
      ih.1, ih.2]
    simp only [Outcome.assign, State.write, hwrite, and_self]
  | negateFailed hd _ ih =>
    rw [Node.evaluate, Node.visits, if_neg (Nat.not_le.2 hd), if_neg (Nat.not_le.2 hd),
      ih.1, ih.2]
    exact ⟨rfl, List.append_nil _⟩
  | negate hd _ ha ih =>
    subst ha
    rw [Node.evaluate, Node.visits, if_neg (Nat.not_le.2 hd), if_neg (Nat.not_le.2 hd),
      ih.1, ih.2]
    exact ⟨rfl, rfl⟩
  | leftFailed hd _ ih =>
    rw [Node.evaluate, Node.visits, if_neg (Nat.not_le.2 hd), if_neg (Nat.not_le.2 hd),
      ih.1, ih.2]
    exact ⟨rfl, List.append_nil _⟩
  | rightFailed hd _ _ ihl ihr =>
    rw [Node.evaluate, Node.visits, if_neg (Nat.not_le.2 hd), if_neg (Nat.not_le.2 hd),
      ihl.1, ihl.2]
    simp only [ihr.1, ihr.2, Outcome.binary, List.append_nil, and_self]
  | binary hd _ _ ha ihl ihr =>
    subst ha
    rw [Node.evaluate, Node.visits, if_neg (Nat.not_le.2 hd), if_neg (Nat.not_le.2 hd),
      ihl.1, ihl.2]
    simp only [ihr.1, ihr.2, Outcome.binary, and_self]

theorem Evaluates.unique {settings : Settings} {n : Node} {s : State} {o₁ o₂ : Outcome}
    {xs₁ xs₂ : List Visit} (h₁ : Evaluates settings n s o₁ xs₁)
    (h₂ : Evaluates settings n s o₂ xs₂) : o₁ = o₂ ∧ xs₁ = xs₂ := by
  obtain ⟨ho₁, hxs₁⟩ := h₁.eq_evaluate
  obtain ⟨ho₂, hxs₂⟩ := h₂.eq_evaluate
  exact ⟨ho₁.symm.trans ho₂, hxs₁.symm.trans hxs₂⟩

theorem Evaluates.depth_eq {settings : Settings} {n : Node} {s : State} {o : Outcome}
    {xs : List Visit} (h : Evaluates settings n s o xs) : o.state.depth = s.depth := by
  induction h with
  | tooDeep | fast | precise | readFailed | read => rfl
  | assignFailed _ _ ih => exact congrArg (· - 1) ih
  | writeFailed _ _ _ ih => exact congrArg (· - 1) ih
  | assign _ _ _ ih => exact congrArg (· - 1) ih
  | negateFailed _ _ ih => exact congrArg (· - 1) ih
  | negate _ _ _ ih => exact congrArg (· - 1) ((State.depth_settling ..).trans ih)
  | leftFailed _ _ ih => exact congrArg (· - 1) ih
  | rightFailed _ _ _ ihl ihr => exact congrArg (· - 1) (ihr.trans ihl)
  | binary _ _ _ _ ihl ihr =>
    exact congrArg (· - 1) ((State.depth_settling ..).trans (ihr.trans ihl))

end AdaptiveCalc
