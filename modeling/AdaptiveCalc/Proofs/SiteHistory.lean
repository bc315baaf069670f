import AdaptiveCalc.Proofs.Evaluation.Settling

/-!
# The life of a site

Over all calls that a program goes through, on whatever stores and with whatever
settings, a site passes at most once from speculating to settled. Main statement:
`sites_settle_once`.
-/
namespace AdaptiveCalc

/-- A site of a program: the number of its statement, and the path to it from there. -/
structure Site where
  statement : ℕ
  path : List Branch

namespace Program

/-- A call that works on a program, on any interpreter. -/
inductive Call where
  | run (i : Interpreter)
  | eval (i : Interpreter) (statement : ℕ)

def settledAt? (p : Program) (site : Site) : Option Bool :=
  (p.statement? site.statement).bind (·.settledAt? site.path)

/-- The program as a call leaves it. There is no evaluation of a statement that is not there. -/
def call (p : Program) : Call → Program
  | .run i => (i.run p).subject
  | .eval i index =>
    match p.statement? index with
    | some n => p.replace index (i.eval n).subject
    | none => p

def callAll (p : Program) (calls : List Call) : Program := calls.foldl call p

@[simp] theorem callAll_nil (p : Program) : p.callAll [] = p := rfl

@[simp] theorem callAll_cons (p : Program) (c : Call) (calls : List Call) :
    p.callAll (c :: calls) = (p.call c).callAll calls := rfl

theorem forall₂_settles_set {nodes : List Node} {index : ℕ} {n m : Node}
    (h : nodes[index]? = some n) (hs : n.Settles m) :
    List.Forall₂ Node.Settles nodes (nodes.set index m) := by
  induction nodes generalizing index with
  | nil => cases h
  | cons k rest ih =>
    cases index with
    | zero =>
      cases h
      exact .cons hs (List.forall₂_same.2 fun n _ => .refl n)
    | succ index => exact .cons (.refl k) (ih h)

/-- A call settles sites of the program, and does nothing else to it. -/
theorem call_settles (p : Program) (c : Call) :
    List.Forall₂ Node.Settles p.statements (p.call c).statements := by
  cases c with
  | run i => exact (i.executes p).settles.statements
  | eval i index =>
    simp only [call]
    cases h : p.statement? index with
    | none => exact List.forall₂_same.2 fun n _ => .refl n
    | some n =>
      simp only [statements_replace, Interpreter.eval, Interpreter.finish, Node.eval_eq]
      exact forall₂_settles_set h (n.evaluates i.settings i.state).settles

/-- A settled site stays settled, and no site is lost. -/
theorem settledAt?_call {p : Program} {site : Site} {b : Bool} (h : p.settledAt? site = some b)
    (c : Call) : ∃ b', (p.call c).settledAt? site = some b' ∧ (b → b') := by
  simp only [settledAt?, Option.bind_eq_some_iff, statement?] at h ⊢
  obtain ⟨n, hn, hb⟩ := h
  obtain ⟨hlt, rfl⟩ := List.getElem?_eq_some_iff.1 hn
  have hall := p.call_settles c
  have hlt' := hall.length_eq ▸ hlt
  obtain ⟨b', hb', himp⟩ := (hall.get hlt hlt').settledAt? hb
  exact ⟨b', ⟨_, List.getElem?_eq_getElem hlt', hb'⟩, himp⟩

/-- From some moment on a site is settled, and before it never: the moment may be the
beginning, and it may lie behind the last call. -/
theorem exists_settling_call {p : Program} {site : Site} {b : Bool}
    (h : p.settledAt? site = some b) (calls : List Call) :
    ∃ k, ∀ j ≤ calls.length,
      (p.callAll (calls.take j)).settledAt? site = some (decide (k ≤ j)) := by
  induction calls generalizing p b with
  | nil =>
    refine ⟨if b then 0 else 1, fun j hj => ?_⟩
    obtain rfl : j = 0 := Nat.le_zero.1 hj
    cases b <;> simpa using h
  | cons c calls ih =>
    obtain ⟨b', hb', himp⟩ := settledAt?_call h c
    obtain ⟨k, hk⟩ := ih hb'
    have hfirst : b' = decide (k ≤ 0) := by
      have := hk 0 (Nat.zero_le _)
      rw [List.take_zero, callAll_nil, hb'] at this
      exact Option.some.inj this
    refine ⟨if b then 0 else k + 1, fun j hj => ?_⟩
    cases j with
    | zero => cases b <;> simpa using h
    | succ j =>
      rw [List.take_succ_cons, callAll_cons, hk j (by simpa using hj)]
      cases b with
      | false => simp
      | true =>
        have hk₀ : k = 0 := by simpa [himp rfl] using hfirst
        simp [hk₀]

end Program

/-- An evaluation settles exactly the sites that it comes to with two integers without a
result of 64 bits, whether or not it then fails, and changes nothing else of the tree.
So over any calls a site settles at most once, and for good. -/
theorem sites_settle_once :
    (∀ (i : Interpreter) (n : Node), SettlesExactly i.settings n i.state (i.eval n).subject) ∧
    ∀ (p : Program) (site : Site) (b : Bool), p.settledAt? site = some b →
      ∀ calls : List Program.Call, ∃ k, ∀ j ≤ calls.length,
        (p.callAll (calls.take j)).settledAt? site = some (decide (k ≤ j)) := by
  constructor
  · intro i n
    simpa [Interpreter.eval, Interpreter.finish] using n.settlesExactly i.settings i.state
  · intro p site b h calls
    exact Program.exists_settling_call h calls

/-- A division of two integers by zero settles, although on decimals it fails as well, and
a run and an evaluation of it see one settling between them. -/
theorem sites_settle_once_by_zero :
    (({} : Interpreter).eval (.binary .div false (.fast 1) (.fast 0))).subject.settledAt? [] =
        some true ∧
      ∃ k, ∀ j ≤ 2, ((⟨[], .binary .div false (.fast 1) (.fast 0)⟩ : Program).callAll
        ([.run {}, .eval {} 0].take j)).settledAt? ⟨0, []⟩ = some (decide (k ≤ j)) := by
  constructor
  · have hexact := sites_settle_once.1 {} (.binary .div false (.fast 1) (.fast 0))
    exact (hexact.settles_iff [] rfl).2 ⟨.div, 1, 0, .divideByZero, by decide +kernel, rfl⟩
  · exact sites_settle_once.2 ⟨[], .binary .div false (.fast 1) (.fast 0)⟩ ⟨0, []⟩ false rfl
      [.run {}, .eval {} 0]

end AdaptiveCalc
