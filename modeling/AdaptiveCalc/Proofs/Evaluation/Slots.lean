import AdaptiveCalc.Proofs.Evaluation.Settling
import AdaptiveCalc.Proofs.Store.Kind
import AdaptiveCalc.Proofs.Store.Table

/-!
# The slots that an evaluation touches

The evaluator does not ask whether a slot is declared. It need not, as long as the trees
that it is given mention only slots of the store: evaluations neither add slots nor take
any away, so the store has the slots of a tree until the last node is done. Main
statements: `Interpreter.staysDeclared_eval` and `Interpreter.staysDeclared_run`.
-/
namespace AdaptiveCalc
namespace Node

def slots : Node → List ℕ
  | .fast _ | .precise _ => []
  | .read slot => [slot]
  | .assign slot e => slot :: e.slots
  | .negate _ e => e.slots
  | .binary _ _ l r => l.slots ++ r.slots

def SlotsBelow (n : Node) (size : ℕ) : Prop := ∀ slot ∈ n.slots, slot < size

section
variable {size : ℕ}

@[simp] theorem slotsBelow_fast (k : Int64) : (fast k).SlotsBelow size := by
  simp [SlotsBelow, slots]

@[simp] theorem slotsBelow_precise (d : Decimal) : (precise d).SlotsBelow size := by
  simp [SlotsBelow, slots]

theorem slotsBelow_literal (v : Value) : (literal v).SlotsBelow size := by
  cases v <;> simp [literal]

@[simp] theorem slotsBelow_read {slot : ℕ} : (read slot).SlotsBelow size ↔ slot < size := by
  simp [SlotsBelow, slots]

@[simp] theorem slotsBelow_assign {slot : ℕ} {e : Node} :
    (assign slot e).SlotsBelow size ↔ slot < size ∧ e.SlotsBelow size := by
  simp [SlotsBelow, slots]

@[simp] theorem slotsBelow_negate {b : Bool} {e : Node} :
    (negate b e).SlotsBelow size ↔ e.SlotsBelow size := Iff.rfl

@[simp] theorem slotsBelow_binary {op : Operator} {b : Bool} {l r : Node} :
    (binary op b l r).SlotsBelow size ↔ l.SlotsBelow size ∧ r.SlotsBelow size :=
  List.forall_mem_append

theorem SlotsBelow.mono {n : Node} {size' : ℕ} (h : n.SlotsBelow size) (hle : size ≤ size') :
    n.SlotsBelow size' := fun slot hslot => Nat.lt_of_lt_of_le (h slot hslot) hle

end

theorem slots_unsettled (n : Node) : n.unsettled.slots = n.slots := by
  induction n with
  | fast | precise | read => rfl
  | assign slot e ih => exact congrArg (slot :: ·) ih
  | negate _ e ih => exact ih
  | binary _ _ l r ihl ihr => exact congrArg₂ (· ++ ·) ihl ihr

theorem slots_congr {n m : Node} (h : n.unsettled = m.unsettled) : n.slots = m.slots := by
  rw [← slots_unsettled n, h, slots_unsettled]

end Node

section
variable {op : Operator} {precision : ℕ} {v w : Value} {e : EvalError}

theorem eq_divisionByZero_of_applyPrecise (h : Value.applyPrecise op precision v w = .error e) :
    e = .divisionByZero := by
  unfold Value.applyPrecise Decimal.apply at h
  cases op with
  | add | sub | mul => cases h
  | div =>
    simp only [] at h
    split_ifs at h <;> cases h
    rfl

/-- Operations fail for no other reason than a divisor that is zero. -/
theorem eq_divisionByZero_of_applySite {b : Bool}
    (h : (applySite op precision b v w).result = .error e) : e = .divisionByZero := by
  unfold applySite at h
  split at h
  · split at h
    · cases h
    · exact eq_divisionByZero_of_applyPrecise h
  · exact eq_divisionByZero_of_applyPrecise h

end

/-- How a call ends that touches no slots but those of a store with `size` slots. An error
ends the call, and kinds only grow, so that a slot which is empty in the store that the
call leaves was so in every store that the call has come through. -/
structure StaysDeclared (size : ℕ) (result : Except EvalError Value) (store : Store) : Prop where
  size_eq : store.size = size
  not_undeclaredWrite : ∀ slot, result ≠ .error (.undeclaredWrite slot)
  empty_of_uninitializedRead : ∀ slot, result = .error (.uninitializedRead slot) →
    slot < size ∧ store.kind? slot = some .empty

namespace StaysDeclared
variable {size : ℕ} {result : Except EvalError Value} {store : Store}

theorem of_ok {v : Value} (h : store.size = size) : StaysDeclared size (.ok v) store :=
  ⟨h, nofun, nofun⟩

theorem of_applySite {op : Operator} {precision : ℕ} {b : Bool} {v w : Value}
    (h : store.size = size) :
    StaysDeclared size (applySite op precision b v w).result store := by
  refine ⟨h, fun slot hresult => ?_, fun slot hresult => ?_⟩
  · cases eq_divisionByZero_of_applySite hresult
  · cases eq_divisionByZero_of_applySite hresult

theorem of_read {slot : ℕ} {e : EvalError} (hslot : slot < store.size)
    (h : store.read slot = .error e) : StaysDeclared store.size (.error e) store := by
  obtain ⟨rfl, hempty | hle⟩ := Store.read_eq_error_iff.1 h
  · refine ⟨rfl, nofun, fun k hk => ?_⟩
    cases hk
    exact ⟨hslot, hempty⟩
  · exact absurd hslot (Nat.not_lt.2 hle)

end StaysDeclared

variable {settings : Settings}

theorem Evaluates.staysDeclared {n : Node} {s : State} {o : Outcome} {xs : List Visit}
    (h : Evaluates settings n s o xs) (hn : n.SlotsBelow s.store.size) :
    StaysDeclared s.store.size o.result o.state.store := by
  induction h with
  | tooDeep hd => exact ⟨rfl, nofun, nofun⟩
  | fast | precise => exact .of_ok rfl
  | read => exact .of_ok rfl
  | readFailed _ hread => exact .of_read (Node.slotsBelow_read.1 hn) hread
  | assignFailed _ _ ih => exact ih (Node.slotsBelow_assign.1 hn).2
  | writeFailed _ _ hwrite ih =>
    obtain ⟨hslot, he⟩ := Node.slotsBelow_assign.1 hn
    have hsize := (ih he).size_eq
    obtain ⟨t, ht⟩ := Store.exists_write_of_lt (hsize ▸ hslot) _
    cases hwrite.symm.trans ht
  | assign _ _ hwrite ih =>
    have hsize := (ih (Node.slotsBelow_assign.1 hn).2).size_eq
    exact .of_ok ((Store.size_of_write hwrite).trans hsize)
  | negateFailed _ _ ih => exact ih hn
  | negate _ _ ha ih =>
    subst ha
    exact .of_applySite (by simpa using (ih hn).size_eq)
  | leftFailed _ _ ih => exact ih (Node.slotsBelow_binary.1 hn).1
  | rightFailed _ _ _ ihl ihr =>
    obtain ⟨hl, hr⟩ := Node.slotsBelow_binary.1 hn
    have hsize := (ihl hl).size_eq
    exact hsize ▸ ihr (hsize ▸ hr)
  | binary _ _ _ ha ihl ihr =>
    subst ha
    obtain ⟨hl, hr⟩ := Node.slotsBelow_binary.1 hn
    have hsize := (ihl hl).size_eq
    exact .of_applySite (by simpa using (ihr (hsize ▸ hr)).size_eq.trans hsize)

theorem Executes.staysDeclared {index : ℕ} {leading : List Node} {last : Node} {s : State}
    {e : Ending} {xss : List (List Visit)} (h : Executes settings index leading last s e xss)
    (hleading : ∀ n ∈ leading, n.SlotsBelow s.store.size) (hlast : last.SlotsBelow s.store.size) :
    StaysDeclared s.store.size e.result e.state.store := by
  induction h with
  | last hn => exact hn.staysDeclared hlast
  | failed hn => exact hn.staysDeclared (hleading _ List.mem_cons_self)
  | next hn _ ih =>
    have hsize := (hn.staysDeclared (hleading _ List.mem_cons_self)).size_eq
    have hrest := fun n hn => hleading n (List.mem_cons_of_mem _ hn)
    exact hsize ▸ ih (hsize ▸ hrest) (hsize ▸ hlast)

namespace Interpreter

theorem staysDeclared_eval (i : Interpreter) {n : Node} (hn : n.SlotsBelow i.store.size) :
    StaysDeclared i.store.size (i.eval n).result (i.eval n).interpreter.store :=
  (i.evaluates n).staysDeclared hn

theorem staysDeclared_run (i : Interpreter) {p : Program}
    (hp : ∀ n ∈ p.statements, n.SlotsBelow i.store.size) :
    StaysDeclared i.store.size (i.run p).result (i.run p).interpreter.store := by
  rw [Program.statements, List.forall_mem_append, List.forall_mem_singleton] at hp
  exact (i.executes p).staysDeclared hp.1 hp.2

end Interpreter
end AdaptiveCalc
