import AdaptiveCalc.Proofs.Evaluation.Settling
import AdaptiveCalc.Proofs.Exactness

/-!
# When a result is an integer

A decimal anywhere in an evaluation, be it a literal, the value of a variable or the result of
a site, makes the whole result a decimal, and so does a settled site. Without any of these the
result is an integer. The store may change under way: a variable that holds a decimal is read
as a decimal also where an integer has just been assigned to it. Main statement:
`result_fast_iff`.
-/
namespace AdaptiveCalc

/-- The literals of a tree. On the left of a negation stands a zero. -/
def Node.literals : Node → List Value
  | .fast k => [.fast k]
  | .precise d => [.precise d]
  | .read _ => []
  | .assign _ e => e.literals
  | .negate _ e => .fast 0 :: e.literals
  | .binary _ _ l r => l.literals ++ r.literals

theorem Node.Settles.mem_settledBits {n m : Node} (h : n.Settles m)
    (hn : true ∈ n.settledBits) : true ∈ m.settledBits := by
  induction h with
  | fast | precise | read => exact hn
  | assign _ _ ih => exact ih hn
  | negate hb _ ih =>
    simp only [settledBits, List.mem_append, List.mem_singleton] at hn ⊢
    rcases hn with hn | hn
    · exact .inl (ih hn)
    · exact .inr (hb hn.symm).symm
  | binary _ hb _ _ ihl ihr =>
    simp only [settledBits, List.mem_append, List.mem_singleton] at hn ⊢
    rcases hn with (hn | hn) | hn
    · exact .inl (.inl (ihl hn))
    · exact .inl (.inr (ihr hn))
    · exact .inr (hb hn.symm).symm

def Event.readValue? : Event → Option Value
  | .read _ v => some v
  | _ => none

theorem Event.readValue?_eq_some_iff {e : Event} {v : Value} :
    e.readValue? = some v ↔ ∃ slot, e = .read slot v := by
  cases e <;> simp [readValue?]

namespace State

/-- The values read so far, the latest one last. -/
def readValues (s : State) : List Value := s.history.reverse.filterMap Event.readValue?

@[simp] theorem readValues_emit (s : State) (e : Event) :
    (s.emit e).readValues = s.readValues ++ e.readValue?.toList := by
  cases h : e.readValue? <;> simp [readValues, emit, h]

@[simp] theorem readValues_enter (s : State) : s.enter.readValues = s.readValues := rfl

@[simp] theorem readValues_leave (s : State) : s.leave.readValues = s.readValues := rfl

theorem readValues_store (s : State) (S : Store) :
    { s with store := S }.readValues = s.readValues := rfl

@[simp] theorem readValues_settling (s : State) (op : Operator) (f : Option Fast.Failure) :
    (s.settling op f).readValues = s.readValues := by
  cases f <;> simp [settling, Event.readValue?]

end State

/-- An operator gives an integer where both operands are integers and it succeeds on them. -/
theorem Value.isFast_apply_iff {op : Operator} {precision : ℕ} {v w r : Value}
    (h : Value.apply op precision v w = .ok r) :
    r.isFast = true ↔ v.isFast = true ∧ w.isFast = true ∧ (failure? op v w).isSome = false := by
  constructor
  · intro hr
    cases r with
    | precise d => cases hr
    | fast n =>
      obtain ⟨p, q, rfl, rfl, hn⟩ := Value.exists_fast_of_apply h
      exact ⟨rfl, rfl, by simp [failure?, hn]⟩
  · rintro ⟨hv, hw, hfailure⟩
    cases v with
    | precise d => cases hv
    | fast p =>
      cases w with
      | precise e => cases hw
      | fast q =>
        cases hn : Fast.apply op p q with
        | error f => simp [failure?, hn] at hfailure
        | ok n =>
          simp only [Value.apply, hn] at h
          cases h
          rfl

/-- A site gives an integer where both operands are integers and it is not settled then. -/
theorem isFast_applySite_iff {op : Operator} {precision : ℕ} {b : Bool} {v w r : Value}
    (h : (applySite op precision b v w).result = .ok r) :
    r.isFast = true ↔ v.isFast = true ∧ w.isFast = true ∧
      (applySite op precision b v w).settled = false := by
  rw [result_applySite] at h
  rw [settled_applySite]
  cases b with
  | false => exact Value.isFast_apply_iff h
  | true =>
    cases r with
    | fast n => exact absurd h (Value.applyPrecise_ne_fast op precision v w n)
    | precise d => simp

/-- An evaluation from `s` to `t` that gives `v`. Its tree has the literals `ls` and
becomes `n`. The value is an integer exactly if the literals and all that was read on the way
are integers and no site of `n` is settled. -/
def FastFrom (s t : State) (ls : List Value) (n : Node) (v : Value) : Prop :=
  ∃ vs, t.readValues = s.readValues ++ vs ∧
    (v.isFast = true ↔ ls.all Value.isFast = true ∧ vs.all Value.isFast = true ∧
      true ∉ n.settledBits)

theorem Evaluates.fastFrom {settings : Settings} {n : Node} {s : State} {o : Outcome}
    {xs : List Visit} (h : Evaluates settings n s o xs) {v : Value} (hv : o.result = .ok v) :
    FastFrom s o.state n.literals o.node v := by
  induction h generalizing v with
  | tooDeep | readFailed | assignFailed | writeFailed | negateFailed | leftFailed | rightFailed =>
    cases hv
  | fast | precise =>
    cases hv
    exact ⟨[], (List.append_nil _).symm, by simp [Node.literals, Node.settledBits]⟩
  | read =>
    cases hv
    exact ⟨[_], State.readValues_emit .., by simp [Node.literals, Node.settledBits]⟩
  | assign _ _ _ ih =>
    obtain ⟨vs, hvs, hfast⟩ := ih hv
    refine ⟨vs, ?_, hfast⟩
    rw [State.readValues_leave, State.readValues_emit, State.readValues_store, hvs]
    simp [Event.readValue?]
  | negate _ _ ha ih =>
    subst ha
    obtain ⟨vs, hvs, hfast⟩ := ih rfl
    refine ⟨vs, by simpa using hvs, ?_⟩
    rw [isFast_applySite_iff hv, hfast]
    simp [Node.literals, Node.settledBits, and_assoc]
  | binary _ _ _ ha ihl ihr =>
    subst ha
    obtain ⟨vs, hvs, hleft⟩ := ihl rfl
    obtain ⟨ws, hws, hright⟩ := ihr rfl
    refine ⟨vs ++ ws, by simpa [hvs] using hws, ?_⟩
    rw [isFast_applySite_iff hv, hleft, hright]
    simp only [Node.literals, Node.settledBits, List.all_append, Bool.and_eq_true,
      List.mem_append, List.mem_singleton, not_or, ← Bool.not_eq_true]
    constructor
    · rintro ⟨⟨hl, hvs, hbits⟩, ⟨hr, hws, hbits'⟩, hsite⟩
      exact ⟨⟨hl, hr⟩, ⟨hvs, hws⟩, ⟨hbits, hbits'⟩, Ne.symm hsite⟩
    · rintro ⟨⟨hl, hr⟩, ⟨hvs, hws⟩, ⟨hbits, hbits'⟩, hsite⟩
      exact ⟨⟨hl, hvs, hbits⟩, ⟨hr, hws, hbits'⟩, Ne.symm hsite⟩

/-- A result is an integer exactly if all literals are integers, all variables had integers on
being read, and no site is settled afterwards. A site that was settled before is settled
afterwards. -/
theorem result_fast_iff (i : Interpreter) (n : Node) {v : Value}
    (h : (i.eval n).result = .ok v) :
    (v.isFast = true ↔ (∀ w ∈ n.literals, w.isFast = true) ∧
      (∀ slot w, .read slot w ∈ (i.eval n).events → w.isFast = true) ∧
      true ∉ (i.eval n).subject.bits) ∧
    (true ∈ n.bits → v.isFast = false) := by
  have heval := i.evaluates n
  obtain ⟨vs, hvs, hfast⟩ := heval.fastFrom h
  have hreads : vs.all Value.isFast = true ↔
      ∀ slot w, .read slot w ∈ (i.eval n).events → w.isFast = true := by
    have hvs' : (i.eval n).events.filterMap Event.readValue? = vs := by
      simpa [State.readValues, Interpreter.state] using hvs
    rw [← hvs']
    simp only [List.all_eq_true, List.mem_filterMap, Event.readValue?_eq_some_iff]
    constructor
    · intro hall slot w hw
      exact hall w ⟨_, hw, slot, rfl⟩
    · rintro hall w ⟨_, hw, slot, rfl⟩
      exact hall slot w hw
  rw [hreads, List.all_eq_true] at hfast
  rw [Node.bits_eq, Node.bits_eq]
  constructor
  · exact hfast
  · intro hsettled
    have hafter := heval.settles.mem_settledBits hsettled
    rw [← Bool.not_eq_true, hfast]
    exact fun hv => hv.2.2 hafter

/-- An integer is assigned to a variable that holds a decimal, which is then read as one. -/
theorem result_fast_iff_widened :
    let i : Interpreter := { store := ⟨#[⟨"x", .precise ⟨15, 1⟩⟩]⟩ }
    let n : Node := .binary .add false (.assign 0 (.fast 1)) (.read 0)
    (i.eval n).result = .ok (.precise ⟨2, 0⟩) ∧ (∀ w ∈ n.literals, w.isFast = true) ∧
      true ∉ (i.eval n).subject.bits ∧
      ¬∀ slot w, .read slot w ∈ (i.eval n).events → w.isFast = true := by
  intro i n
  have hresult : (i.eval n).result = .ok (.precise ⟨2, 0⟩) := by decide +kernel
  have hliterals : ∀ w ∈ n.literals, w.isFast = true := by decide
  have hbits : true ∉ (i.eval n).subject.bits := by decide +kernel
  obtain ⟨hfast, -⟩ := result_fast_iff i n hresult
  exact ⟨hresult, hliterals, hbits, fun hreads => nomatch hfast.mpr ⟨hliterals, hreads, hbits⟩⟩

end AdaptiveCalc
