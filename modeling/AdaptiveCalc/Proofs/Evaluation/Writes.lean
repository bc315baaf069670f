import AdaptiveCalc.Proofs.Evaluation.Runs

/-!
# What an evaluation writes

The events of an evaluation list its writes, and nothing but these writes happens to the
store: applied one after the other to the store from before, they make the store from
after, however the evaluation ends. Main statements: `Interpreter.writeAll_eval` and
`Interpreter.writeAll_run`.
-/
namespace AdaptiveCalc

structure Write where
  slot : ℕ
  value : Value
  deriving DecidableEq, Repr

namespace Event

def write? : Event → Option Write
  | .write slot value _ => some ⟨slot, value⟩
  | _ => none

def writes (events : List Event) : List Write := events.filterMap write?

end Event

namespace Store

/-- Writes one value after the other. -/
def writeAll (s : Store) : List Write → Except EvalError Store
  | [] => .ok s
  | w :: ws =>
    match s.write w.slot w.value with
    | .ok t => t.writeAll ws
    | .error e => .error e

theorem writeAll_cons_eq_ok {s t : Store} {w : Write} {ws : List Write}
    (h : s.writeAll (w :: ws) = .ok t) :
    ∃ u, s.write w.slot w.value = .ok u ∧ u.writeAll ws = .ok t := by
  rw [writeAll] at h
  split at h
  · next u hu => exact ⟨u, hu, h⟩
  · cases h

theorem writeAll_singleton {s t : Store} {slot : ℕ} {v : Value} (h : s.write slot v = .ok t) :
    s.writeAll [⟨slot, v⟩] = .ok t := by
  simp [writeAll, h]

theorem writeAll_append {s t u : Store} {ws vs : List Write} (hws : s.writeAll ws = .ok t)
    (hvs : t.writeAll vs = .ok u) : s.writeAll (ws ++ vs) = .ok u := by
  induction ws generalizing s with
  | nil =>
    cases hws
    exact hvs
  | cons w ws ih =>
    obtain ⟨s', hw, hrest⟩ := writeAll_cons_eq_ok hws
    simp only [List.cons_append, writeAll, hw]
    exact ih hrest

theorem names_of_writeAll {s t : Store} {ws : List Write} (h : s.writeAll ws = .ok t) :
    t.names = s.names := by
  induction ws generalizing s with
  | nil =>
    cases h
    rfl
  | cons w ws ih =>
    obtain ⟨u, hw, hrest⟩ := writeAll_cons_eq_ok h
    exact (ih hrest).trans (names_of_write hw)

theorem contents?_of_writeAll {s t : Store} {ws : List Write} (h : s.writeAll ws = .ok t)
    {slot : ℕ} (hslot : slot ∉ ws.map Write.slot) : t.contents? slot = s.contents? slot := by
  induction ws generalizing s with
  | nil =>
    cases h
    rfl
  | cons w ws ih =>
    obtain ⟨u, hw, hrest⟩ := writeAll_cons_eq_ok h
    rw [List.map_cons, List.mem_cons, not_or] at hslot
    rw [ih hrest hslot.2, contents?_of_write hw, if_neg (Ne.symm hslot.1)]

end Store

namespace State

/-- The writes so far, the latest one last. -/
def writes (s : State) : List Write := Event.writes s.history.reverse

@[simp] theorem writes_emit (s : State) (e : Event) :
    (s.emit e).writes = s.writes ++ e.write?.toList := by
  cases h : e.write? <;> simp [writes, Event.writes, emit, h]

@[simp] theorem writes_leave (s : State) : s.leave.writes = s.writes := rfl

@[simp] theorem writes_settling (s : State) (op : Operator) (f : Option Fast.Failure) :
    (s.settling op f).writes = s.writes := by
  cases f <;> simp [settling, Event.write?]

/-- From one state to another the store has changed by the writes in between. -/
def Wrote (s t : State) : Prop :=
  ∃ ws, t.writes = s.writes ++ ws ∧ s.store.writeAll ws = .ok t.store

theorem Wrote.refl (s : State) : s.Wrote s := ⟨[], (List.append_nil _).symm, rfl⟩

theorem Wrote.trans {s t u : State} (h₁ : s.Wrote t) (h₂ : t.Wrote u) : s.Wrote u := by
  obtain ⟨ws, hws, hstore⟩ := h₁
  obtain ⟨vs, hvs, hstore'⟩ := h₂
  exact ⟨ws ++ vs, by rw [hvs, hws, List.append_assoc], Store.writeAll_append hstore hstore'⟩

/-- Where nothing is written, nothing has changed. -/
theorem Wrote.of_writes_eq {s t : State} (hwrites : t.writes = s.writes)
    (hstore : t.store = s.store) : s.Wrote t :=
  ⟨[], by rw [hwrites, List.append_nil], congrArg Except.ok hstore.symm⟩

theorem Wrote.write {s : State} {store : Store} {slot : ℕ} {v : Value}
    (h : s.store.write slot v = .ok store) (demotes : Bool) :
    s.Wrote ({ s with store }.emit (.write slot v demotes)).leave := by
  refine ⟨[⟨slot, v⟩], ?_, Store.writeAll_singleton h⟩
  rw [writes_leave, writes_emit]
  rfl

end State

theorem Evaluates.wrote {settings : Settings} {n : Node} {s : State} {o : Outcome}
    {xs : List Visit} (h : Evaluates settings n s o xs) : s.Wrote o.state := by
  induction h with
  | tooDeep | fast | precise | readFailed => exact .refl _
  | read => exact .of_writes_eq (by simp [Event.write?]) rfl
  | assignFailed _ _ ih => exact ih
  | writeFailed _ _ _ ih => exact ih
  | assign _ _ hwrite ih => exact ih.trans (.write hwrite _)
  | negateFailed _ _ ih => exact ih
  | negate _ _ _ ih => exact ih.trans (.of_writes_eq (by simp) (by simp))
  | leftFailed _ _ ih => exact ih
  | rightFailed _ _ _ ihl ihr => exact ihl.trans ihr
  | binary _ _ _ _ ihl ihr =>
    exact (ihl.trans ihr).trans (.of_writes_eq (by simp) (by simp))

theorem Executes.wrote {settings : Settings} {index : ℕ} {leading : List Node} {last : Node}
    {s : State} {e : Ending} {xss : List (List Visit)}
    (h : Executes settings index leading last s e xss) : s.Wrote e.state := by
  have hemit : ∀ (s : State) (e : Event), e.write? = none → s.Wrote (s.emit e) :=
    fun s e he => .of_writes_eq (by simp [he]) rfl
  induction h with
  | last hn => exact (hemit _ _ rfl).trans hn.wrote
  | failed hn => exact (hemit _ _ rfl).trans hn.wrote
  | next hn _ ih => exact ((hemit _ _ rfl).trans hn.wrote).trans ih

namespace Interpreter

/-- An evaluation does its writes to the store, and nothing else. -/
theorem writeAll_eval (i : Interpreter) (n : Node) :
    i.store.writeAll (Event.writes (i.eval n).events) = .ok (i.eval n).interpreter.store := by
  obtain ⟨ws, hws, hstore⟩ := (i.evaluates n).wrote
  simp only [State.writes, List.reverse_reverse] at hws
  rw [hws]
  exact hstore

/-- A run does its writes to the store, and nothing else. -/
theorem writeAll_run (i : Interpreter) (p : Program) :
    i.store.writeAll (Event.writes (i.run p).events) = .ok (i.run p).interpreter.store := by
  obtain ⟨ws, hws, hstore⟩ := (i.executes p).wrote
  simp only [State.writes, List.reverse_reverse] at hws
  rw [hws]
  exact hstore

end Interpreter
end AdaptiveCalc
