import AdaptiveCalc.Proofs.Evaluation.Slots

/-!
# The depth of an evaluation

An evaluation that succeeds goes as deep as its tree is high, and one that comes to the limit
is of a tree too high for it. An error that comes before the limit ends an evaluation earlier,
so a tree too high need not come to it. Otherwise the limit has no effect: under any larger
one, an evaluation that did not come to it is the same. Main statement: `depth_limit_exact`.
-/
namespace AdaptiveCalc

/-- The number of nodes on the longest way down. On the left of a negation stands a zero. -/
def Node.height : Node → ℕ
  | .fast _ | .precise _ | .read _ => 1
  | .assign _ e => e.height + 1
  | .negate _ e => max 1 e.height + 1
  | .binary _ _ l r => max l.height r.height + 1

theorem Node.height_pos (n : Node) : 0 < n.height := by cases n <;> simp [height]

theorem Node.height_negate (b : Bool) (e : Node) : (negate b e).height = e.height + 1 := by
  have := e.height_pos
  simp only [height]
  omega

theorem Node.height_binary (op : Operator) (b : Bool) (l r : Node) :
    (binary op b l r).height = max (l.height + 1) (r.height + 1) :=
  (Nat.add_max_add_right ..).symm

def Program.height (p : Program) : ℕ :=
  p.leading.foldr (fun n h => max n.height h) p.last.height

theorem State.depth_enter_add (s : State) (k : ℕ) : s.enter.depth + k = s.depth + (k + 1) :=
  Nat.succ_add_eq_add_succ s.depth k

def Settings.withLimit (settings : Settings) (limit : ℕ) : Settings :=
  { settings with maxDepth := limit }

/-- What a result says of the limit, if the trees that it is the result of reach down to the
depth `bottom`. -/
structure DepthFits (settings : Settings) (bottom : ℕ) (result : Except EvalError Value) :
    Prop where
  ok : ∀ v, result = .ok v → bottom ≤ settings.maxDepth
  exceeded : ∀ limit, result = .error (.depthExceeded limit) →
    limit = settings.maxDepth ∧ settings.maxDepth < bottom

namespace DepthFits
variable {settings : Settings} {bottom bottom' : ℕ} {result : Except EvalError Value}

theorem of_le (h : bottom ≤ settings.maxDepth)
    (hresult : ∀ limit, result ≠ .error (.depthExceeded limit)) :
    DepthFits settings bottom result :=
  ⟨fun _ _ => h, fun limit hlimit => absurd hlimit (hresult limit)⟩

theorem of_error {x : EvalError} (h : DepthFits settings bottom (.error x))
    (hle : bottom ≤ bottom') : DepthFits settings bottom' (.error x) :=
  ⟨nofun, fun limit hlimit => (h.exceeded limit hlimit).imp_right (Nat.lt_of_lt_of_le · hle)⟩

theorem applySite {op : Operator} {b : Bool} {v w : Value} {a : Application}
    (ha : applySite op settings.divisionPrecision b v w = a) (h : bottom ≤ settings.maxDepth) :
    DepthFits settings bottom a.result := by
  refine of_le h fun limit hlimit => ?_
  rw [← ha] at hlimit
  cases eq_divisionByZero_of_applySite hlimit

end DepthFits

variable {settings : Settings}

theorem Evaluates.depthFits {n : Node} {s : State} {o : Outcome} {xs : List Visit}
    (h : Evaluates settings n s o xs) : DepthFits settings (s.depth + n.height) o.result := by
  induction h with
  | @tooDeep n s hd =>
    refine ⟨nofun, fun limit hlimit => ?_⟩
    cases hlimit
    have := n.height_pos
    exact ⟨rfl, by omega⟩
  | fast hd | precise hd | read hd => exact .of_le hd nofun
  | readFailed hd hread =>
    refine .of_le hd fun limit hlimit => ?_
    cases hlimit
    cases (Store.read_eq_error_iff.1 hread).1
  | assignFailed _ _ ih =>
    rw [State.depth_enter_add] at ih
    exact ih
  | writeFailed _ _ hwrite ih =>
    rw [State.depth_enter_add] at ih
    refine .of_le (ih.ok _ rfl) fun limit hlimit => ?_
    cases hlimit
    cases (Store.write_eq_error hwrite).1
  | assign _ _ _ ih =>
    rw [State.depth_enter_add] at ih
    exact .of_le (ih.ok _ rfl) nofun
  | negateFailed _ _ ih =>
    rw [State.depth_enter_add] at ih
    rw [Node.height_negate]
    exact ih
  | negate _ _ ha ih =>
    rw [State.depth_enter_add] at ih
    rw [Node.height_negate]
    exact .applySite ha (ih.ok _ rfl)
  | leftFailed _ _ ih =>
    rw [State.depth_enter_add] at ih
    rw [Node.height_binary]
    exact ih.of_error (Nat.add_le_add_left (Nat.le_max_left ..) _)
  | rightFailed _ hl _ _ ihr =>
    rw [hl.depth_eq, State.depth_enter_add] at ihr
    rw [Node.height_binary]
    exact ihr.of_error (Nat.add_le_add_left (Nat.le_max_right ..) _)
  | binary _ hl _ ha ihl ihr =>
    rw [State.depth_enter_add] at ihl
    rw [hl.depth_eq, State.depth_enter_add] at ihr
    refine .applySite ha ?_
    rw [Node.height_binary, ← Nat.add_max_add_left]
    exact Nat.max_le.2 ⟨ihl.ok _ rfl, ihr.ok _ rfl⟩

/-- Only the error of the limit itself can be different under a larger limit. -/
theorem Evaluates.withLimit {n : Node} {s : State} {o : Outcome} {xs : List Visit}
    (h : Evaluates settings n s o xs) {limit : ℕ} (hlimit : settings.maxDepth ≤ limit)
    (hresult : ∀ m, o.result ≠ .error (.depthExceeded m)) :
    Evaluates (settings.withLimit limit) n s o xs := by
  have hdeeper : ∀ {depth}, depth < settings.maxDepth →
      depth < (settings.withLimit limit).maxDepth :=
    fun hd => Nat.lt_of_lt_of_le hd hlimit
  induction h with
  | tooDeep => exact absurd rfl (hresult _)
  | fast hd => exact .fast (hdeeper hd)
  | precise hd => exact .precise (hdeeper hd)
  | readFailed hd hread => exact .readFailed (hdeeper hd) hread
  | read hd hread => exact .read (hdeeper hd) hread
  | assignFailed hd _ ih => exact .assignFailed (hdeeper hd) (ih hresult)
  | writeFailed hd _ hwrite ih => exact .writeFailed (hdeeper hd) (ih nofun) hwrite
  | assign hd _ hwrite ih => exact .assign (hdeeper hd) (ih nofun) hwrite
  | negateFailed hd _ ih => exact .negateFailed (hdeeper hd) (ih hresult)
  | negate hd _ ha ih => exact .negate (hdeeper hd) (ih nofun) ha
  | leftFailed hd _ ih => exact .leftFailed (hdeeper hd) (ih hresult)
  | rightFailed hd _ _ ihl ihr => exact .rightFailed (hdeeper hd) (ihl nofun) (ihr hresult)
  | binary hd _ _ ha ihl ihr => exact .binary (hdeeper hd) (ihl nofun) (ihr nofun) ha

section
variable {index : ℕ} {leading : List Node} {last : Node} {s : State} {e : Ending}
  {xss : List (List Visit)}

theorem Executes.depth_eq (h : Executes settings index leading last s e xss) :
    e.state.depth = s.depth := by
  induction h with
  | last hn => exact hn.depth_eq
  | failed hn => exact hn.depth_eq
  | next hn _ ih => exact ih.trans hn.depth_eq

theorem Executes.depthFits (h : Executes settings index leading last s e xss) :
    DepthFits settings (s.depth + Program.height ⟨leading, last⟩) e.result := by
  induction h with
  | last hn => exact hn.depthFits
  | @failed _ n _ last rest s _ _ _ hn =>
    have hle : n.height ≤ Program.height ⟨n :: rest, last⟩ := Nat.le_max_left ..
    exact hn.depthFits.of_error (Nat.add_le_add_left hle s.depth)
  | @next _ n _ last rest s t _ e _ _ hn _ ih =>
    have hmax : Program.height ⟨n :: rest, last⟩ =
      max n.height (Program.height ⟨rest, last⟩) := rfl
    have hdepth : t.depth = s.depth := hn.depth_eq
    rw [hdepth] at ih
    refine ⟨fun v hv => ?_, fun limit hlimit => ?_⟩
    · have hfirst := hn.depthFits.ok _ rfl
      have hrest := ih.ok v hv
      rw [State.depth_emit] at hfirst
      omega
    · obtain ⟨heq, hlt⟩ := ih.exceeded limit hlimit
      exact ⟨heq, by omega⟩

theorem Executes.withLimit (h : Executes settings index leading last s e xss) {limit : ℕ}
    (hlimit : settings.maxDepth ≤ limit) (hresult : ∀ m, e.result ≠ .error (.depthExceeded m)) :
    Executes (settings.withLimit limit) index leading last s e xss := by
  induction h with
  | last hn => exact .last (hn.withLimit hlimit hresult)
  | failed hn => exact .failed (hn.withLimit hlimit hresult)
  | next hn _ ih => exact .next (hn.withLimit hlimit nofun) (ih hresult)

end

def Interpreter.withLimit (i : Interpreter) (limit : ℕ) : Interpreter :=
  { i with settings := i.settings.withLimit limit }

/-- The part that the limit has in a call on trees of which the highest is `height`. -/
structure DepthLimited {α : Type} (i : Interpreter) (height : ℕ)
    (call : Interpreter → Evaluation α) : Prop
    extends DepthFits i.settings (i.depth + height) (call i).result where
  depth : (call i).interpreter.depth = i.depth
  larger : ∀ limit, i.settings.maxDepth ≤ limit →
    (∀ m, (call i).result ≠ .error (.depthExceeded m)) →
    (call (i.withLimit limit)).result = (call i).result ∧
      (call (i.withLimit limit)).subject = (call i).subject ∧
      (call (i.withLimit limit)).interpreter.store = (call i).interpreter.store ∧
      (call (i.withLimit limit)).events = (call i).events

namespace Interpreter

theorem depthLimited_eval (i : Interpreter) (n : Node) :
    DepthLimited i n.height fun i => i.eval n := by
  have h := i.evaluates n
  exact { h.depthFits with
    depth := h.depth_eq
    larger := fun limit hlimit hresult => by
      obtain ⟨he, -⟩ := ((i.withLimit limit).evaluates n).unique (h.withLimit hlimit hresult)
      simp only [Outcome.mk.injEq, State.mk.injEq, List.reverse_inj] at he
      obtain ⟨hresult, hsubject, hstore, -, hevents⟩ := he
      exact ⟨hresult, hsubject, hstore, hevents⟩ }

theorem depthLimited_run (i : Interpreter) (p : Program) :
    DepthLimited i p.height fun i => i.run p := by
  have h := i.executes p
  exact { h.depthFits with
    depth := h.depth_eq
    larger := fun limit hlimit hresult => by
      obtain ⟨he, -⟩ := ((i.withLimit limit).executes p).unique (h.withLimit hlimit hresult)
      simp only [Ending.mk.injEq, State.mk.injEq, List.reverse_inj] at he
      obtain ⟨hresult, hleading, hlast, hstore, -, hevents⟩ := he
      exact ⟨hresult, congrArg₂ Program.mk hleading hlast, hstore, hevents⟩ }

end Interpreter

/-- A call that succeeds has a tree, or a highest statement, that the limit leaves room for
below the depth of the interpreter, and one that fails at the limit has not. If it does not
fail there, it is the same under every larger limit: result, tree, store and events. -/
theorem depth_limit_exact (i : Interpreter) :
    (∀ n, DepthLimited i n.height fun i => i.eval n) ∧
      ∀ p, DepthLimited i p.height fun i => i.run p :=
  ⟨i.depthLimited_eval, i.depthLimited_run⟩

end AdaptiveCalc
