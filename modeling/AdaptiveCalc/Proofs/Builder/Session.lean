import AdaptiveCalc.Proofs.Builder.Calls
import AdaptiveCalc.Proofs.Evaluation.Slots

/-!
# Sessions with a builder

What a front end comes by with one builder: the nodes that its calls have given, to copy,
to drop, to put in any order, and to evaluate in between. Such nodes mention only slots
that the builder has declared, and so no program that is made of them writes to a slot
that is not there. Main statement: `session_stays_declared`.
-/
namespace AdaptiveCalc
namespace Builder
variable {b b' : Builder} {n : Node}

/-- The node that a call gives, unless it fails. -/
def made? (b : Builder) (c : Call) : Option Node :=
  match b.answer c with
  | .ok (n, _) => some n
  | .error _ => none

/-- A builder after some calls, and the nodes that there are by then. -/
inductive Session : Builder → List Node → Prop
  | start : Session {} []
  /-- A call takes nodes that there are. It may fail, and then it leaves things alone. -/
  | call {b : Builder} {nodes : List Node} (h : Session b nodes) (c : Call)
      (hc : ∀ n ∈ c.operands, n ∈ nodes) : Session (b.call c) ((b.made? c).toList ++ nodes)
  /-- The sites of a node may have settled, or those of a copy of it. -/
  | settled {b : Builder} {nodes : List Node} {n m : Node} (h : Session b nodes) (hm : m ∈ nodes)
      (hn : n.unsettled = m.unsettled) : Session b (n :: nodes)

theorem eq_of_declare {name : String} {init : Node} (h : b.declare name init = .ok (n, b')) :
    n = .assign b.store.size init ∧ b'.store = b.store.extended name := by
  unfold declare at h
  by_cases hname : name ∈ b.store.names
  · rw [Store.declare_of_mem hname] at h
    cases h
  · rw [Store.declare_of_not_mem hname] at h
    cases h
    exact ⟨rfl, rfl⟩

theorem exists_of_map_eq_ok {ε α β : Type} {f : α → β} {x : Except ε α} {y : β}
    (h : x.map f = .ok y) : ∃ a, x = .ok a ∧ f a = y := by
  cases x with
  | error e => cases h
  | ok a => exact ⟨a, rfl, Except.ok.inj h⟩

theorem eq_ok_of_map_pair {x : Except BuildError Node} (h : x.map (·, b) = .ok (n, b')) :
    x = .ok n ∧ b = b' := by
  obtain ⟨m, hm, heq⟩ := exists_of_map_eq_ok h
  cases heq
  exact ⟨hm, rfl⟩

theorem slotsBelow_of_number {text : String} (h : number text = .ok n) (size : ℕ) :
    n.SlotsBelow size := by
  obtain ⟨m, -, rfl⟩ := exists_of_map_eq_ok h
  exact Node.slotsBelow_literal m.value

theorem slotsBelow_of_assign {name : String} {value : Node} (h : b.assign name value = .ok n)
    (hvalue : value.SlotsBelow b.store.size) : n.SlotsBelow b.store.size := by
  obtain ⟨slot, hslot, rfl⟩ := exists_of_map_eq_ok h
  exact Node.slotsBelow_assign.2 ⟨Store.lt_of_resolve hslot, hvalue⟩

theorem slotsBelow_of_read {name : String} (h : b.read name = .ok n) :
    n.SlotsBelow b.store.size := by
  obtain ⟨slot, hslot, rfl⟩ := exists_of_map_eq_ok h
  exact Node.slotsBelow_read.2 (Store.lt_of_resolve hslot)

theorem slotsBelow_of_answer {c : Call} (h : b.answer c = .ok (n, b'))
    (hc : ∀ m ∈ c.operands, m.SlotsBelow b.store.size) :
    n.SlotsBelow b'.store.size ∧ b.store.size ≤ b'.store.size := by
  cases c with
  | number text =>
    obtain ⟨hn, rfl⟩ := eq_ok_of_map_pair h
    exact ⟨slotsBelow_of_number hn _, Nat.le_refl _⟩
  | fast | precise =>
    cases h
    simp
  | declare name init =>
    obtain ⟨rfl, hstore⟩ := eq_of_declare h
    have hinit := hc init List.mem_cons_self
    rw [hstore, Store.size_extended]
    exact ⟨Node.slotsBelow_assign.2 ⟨Nat.lt_succ_self _, hinit.mono (Nat.le_succ _)⟩, Nat.le_succ _⟩
  | assign name value =>
    obtain ⟨hn, rfl⟩ := eq_ok_of_map_pair h
    exact ⟨slotsBelow_of_assign hn (hc value List.mem_cons_self), Nat.le_refl _⟩
  | read name =>
    obtain ⟨hn, rfl⟩ := eq_ok_of_map_pair h
    exact ⟨slotsBelow_of_read hn, Nat.le_refl _⟩
  | binary op l r =>
    cases h
    have hl := hc l List.mem_cons_self
    have hr := hc r (List.mem_cons_of_mem _ List.mem_cons_self)
    exact ⟨Node.slotsBelow_binary.2 ⟨hl, hr⟩, Nat.le_refl _⟩
  | negate operand =>
    cases h
    exact ⟨Node.slotsBelow_negate.2 (hc operand List.mem_cons_self), Nat.le_refl _⟩

theorem Session.slotsBelow {nodes : List Node} (h : Session b nodes) :
    ∀ n ∈ nodes, n.SlotsBelow b.store.size := by
  induction h with
  | start => exact nofun
  | @call b nodes _ c hc ih =>
    rw [made?, Builder.call]
    cases hanswer : b.answer c with
    | error e => exact ih
    | ok answer =>
      obtain ⟨n, b'⟩ := answer
      obtain ⟨hn, hle⟩ := slotsBelow_of_answer hanswer fun m hm => ih m (hc m hm)
      exact List.forall_mem_cons.2 ⟨hn, fun m hm => (ih m hm).mono hle⟩
  | settled _ hm hn ih =>
    refine List.forall_mem_cons.2 ⟨?_, ih⟩
    rw [Node.SlotsBelow, Node.slots_congr hn]
    exact ih _ hm

/-- What a builder stands for, as long as only nodes that it has made are used. -/
structure Guards (b : Builder) (nodes : List Node) : Prop where
  slotsBelow : ∀ n ∈ nodes, n.SlotsBelow b.store.size
  answer : ∀ c n b', (∀ m ∈ c.operands, m ∈ nodes) → b.answer c = .ok (n, b') →
    n.SlotsBelow b'.store.size
  declare_new : ∀ init ∈ nodes, ∀ name n b', b.declare name init = .ok (n, b') →
    n = .assign b.store.size init ∧ b'.store.size = b.store.size + 1 ∧
      b.store.size ∉ init.slots
  /-- The interpreter may have any settings, and any store with the slots of the built one:
  that store, a fresh copy of it, or what earlier calls have left of either. -/
  run : ∀ statements p store, (∀ n ∈ statements, n ∈ nodes) →
    b.build statements = .ok (p, store) → ∀ i : Interpreter, i.store.size = store.size →
      StaysDeclared store.size (i.run p).result (i.run p).interpreter.store
  eval : ∀ n ∈ nodes, ∀ i : Interpreter, i.store.size = b.store.size →
    StaysDeclared b.store.size (i.eval n).result (i.eval n).interpreter.store

end Builder

/-- However a session goes, the nodes made in it mention declared slots only. No write in a
run or an evaluation of them ever misses, and no read fails but of a slot that is declared
and still empty. -/
theorem session_stays_declared {b : Builder} {nodes : List Node} (h : b.Session nodes) :
    b.Guards nodes where
  slotsBelow := h.slotsBelow
  answer c n b' hc hanswer :=
    (Builder.slotsBelow_of_answer hanswer fun m hm => h.slotsBelow m (hc m hm)).1
  declare_new init hinit name n b' hdeclare := by
    obtain ⟨hn, hstore⟩ := Builder.eq_of_declare hdeclare
    refine ⟨hn, by rw [hstore, Store.size_extended], fun hmem => ?_⟩
    exact Nat.lt_irrefl _ (h.slotsBelow init hinit _ hmem)
  run statements p store hstatements hbuild i hsize := by
    obtain ⟨q, hq, heq⟩ := Builder.exists_of_map_eq_ok hbuild
    cases heq
    rw [← Program.statements_of_ofStatements hq] at hstatements
    exact hsize ▸ i.staysDeclared_run fun n hn => hsize ▸ h.slotsBelow n (hstatements n hn)
  eval n hn i hsize := hsize ▸ i.staysDeclared_eval (hsize ▸ h.slotsBelow n hn)

def Builder.negated : Builder :=
  after [.fast 1, .declare "x" (.fast 1), .read "x", .negate (.read 0)]

/-- The negation, which has settled elsewhere, before the declaration. -/
def Program.tooEarly : Program := ⟨[.negate true (.read 0)], .assign 0 (.fast 1)⟩

theorem session_stays_declared_tooEarly :
    (({ store := Builder.negated.store.fresh } : Interpreter).run .tooEarly).result =
        .error (.uninitializedRead 0) ∧
      0 < Builder.negated.store.size ∧
      (({ store := Builder.negated.store.fresh } : Interpreter).run
        .tooEarly).interpreter.store.kind? 0 = some .empty := by
  have hmade : Builder.negated.Session _ :=
    (((Builder.Session.start.call (.fast 1) nofun).call (.declare "x" (.fast 1))
      (by decide +kernel)).call (.read "x") nofun).call (.negate (.read 0)) (by decide +kernel)
  have hsettled := hmade.settled (n := .negate true (.read 0)) List.mem_cons_self rfl
  have hresult : (({ store := Builder.negated.store.fresh } : Interpreter).run .tooEarly).result =
      .error (.uninitializedRead 0) := by decide +kernel
  have hrun := (session_stays_declared hsettled).run Program.tooEarly.statements _ _
    (by decide +kernel) rfl { store := Builder.negated.store.fresh } (Store.size_fresh _)
  exact ⟨hresult, hrun.empty_of_uninitializedRead 0 hresult⟩

end AdaptiveCalc
