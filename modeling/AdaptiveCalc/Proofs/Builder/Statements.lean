import AdaptiveCalc.Proofs.Builder.Session
import AdaptiveCalc.Proofs.Evaluation.Filled

/-!
# Building statement by statement

A front end that finishes each statement before it begins the next, and declares a variable
only as the last step of a statement. The slots that a statement can mention are then those
that the statements before it have filled by the time it runs. Main statement:
`drafts_read_filled_slots`.
-/
namespace AdaptiveCalc
namespace Builder
variable {b : Builder} {nodes statements : List Node}

/-- A builder that is used for one statement after the other: the nodes that it has made, and
the statements so far, in order. A call that fails adds nothing. Nodes that are left over may
go into later statements, declarations among them. -/
inductive Drafts : Builder → List Node → List Node → Prop
  | start : Drafts {} [] []
  | call {b : Builder} {nodes statements : List Node} (h : Drafts b nodes statements) (c : Call)
      (hc : ∀ n ∈ c.operands, n ∈ nodes) (hdeclares : c.declares? = none) :
      Drafts (b.call c) ((b.made? c).toList ++ nodes) statements
  | statement {b : Builder} {nodes statements : List Node} {n : Node}
      (h : Drafts b nodes statements) (hn : n ∈ nodes) : Drafts b nodes (statements ++ [n])
  | declare {b : Builder} {nodes statements : List Node} (h : Drafts b nodes statements)
      (name : String) (init : Node) (hinit : init ∈ nodes) :
      Drafts (b.call (.declare name init)) ((b.made? (.declare name init)).toList ++ nodes)
        (statements ++ (b.made? (.declare name init)).toList)

/-- A declaration makes an assignment to the next slot, unless it fails. -/
theorem declare_cases (b : Builder) (name : String) (init : Node) :
    (b.call (.declare name init) = b ∧ b.made? (.declare name init) = none) ∨
      ((b.call (.declare name init)).store.size = b.store.size + 1 ∧
        b.made? (.declare name init) = some (.assign b.store.size init)) := by
  simp only [call, made?, answer]
  cases hdeclare : b.declare name init with
  | error e => exact .inl ⟨rfl, rfl⟩
  | ok answer =>
    obtain ⟨hn, hstore⟩ := eq_of_declare hdeclare
    refine .inr ⟨?_, congrArg some hn⟩
    rw [hstore, Store.size_extended]

theorem Drafts.session (h : b.Drafts nodes statements) : b.Session nodes := by
  induction h with
  | start => exact .start
  | call _ c hc _ ih => exact ih.call c hc
  | statement _ _ ih => exact ih
  | declare _ name init hinit ih =>
    exact ih.call (.declare name init) (List.forall_mem_singleton.2 hinit)

theorem Drafts.fillsInTurn (h : b.Drafts nodes statements) :
    FillsInTurn 0 statements b.store.size := by
  induction h with
  | start => exact .nil
  | call _ c _ hdeclares ih =>
    rw [call_eq_self hdeclares]
    exact ih
  | statement h hn ih => exact ih.append (.use (h.session.slotsBelow _ hn) .nil)
  | @declare b _ _ h name init hinit ih =>
    rcases b.declare_cases name init with ⟨hcall, hmade⟩ | ⟨hsize, hmade⟩
    · rw [hcall, hmade, Option.toList_none, List.append_nil]
      exact ih
    · rw [hsize, hmade, Option.toList_some]
      exact ih.append (.fill (h.session.slotsBelow _ hinit) .nil)

end Builder

/-- What is built statement by statement never reads a slot that is still empty: a run of it
fails for a division by zero or for its depth, if it fails, and otherwise it leaves all slots
filled. The program may have any settled bits, and the interpreter any settings and any store
with the slots of the built one: that store, a fresh copy, or what earlier runs have left. -/
theorem drafts_read_filled_slots {b : Builder} {nodes statements : List Node}
    (h : b.Drafts nodes statements) {built p : Program} {store : Store}
    (hbuild : b.build statements = .ok (built, store))
    (hbits : p.statements.map Node.unsettled = built.statements.map Node.unsettled)
    (i : Interpreter) (hsize : i.store.size = store.size) :
    (∀ slot, (i.run p).result ≠ .error (.uninitializedRead slot)) ∧
      (∀ e, (i.run p).result = .error e →
        e = .divisionByZero ∨ e = .depthExceeded i.settings.maxDepth) ∧
      ∀ v, (i.run p).result = .ok v →
        ∀ slot < store.size, ∃ w, (i.run p).interpreter.store.read slot = .ok w := by
  obtain ⟨q, hq, heq⟩ := Builder.exists_of_map_eq_ok hbuild
  cases heq
  have hfills : FillsInTurn 0 p.statements i.store.size := by
    rw [Program.statements_of_ofStatements hq] at hbits
    exact hsize ▸ h.fillsInTurn.congr hbits
  have hends := i.endsFilled_run hfills
  refine ⟨fun slot hresult => ?_, hends.error, fun v hv => hsize ▸ hends.filled v hv⟩
  rcases hends.error _ hresult with he | he <;> cases he

/-- A builder that has declared `x`, in vain a second time, and has divided it by an
assignment to it. -/
def Builder.dividing : Builder :=
  after [.fast 2, .declare "x" (.fast 2), .declare "x" (.fast 2), .fast 0, .assign "x" (.fast 0),
    .read "x", .binary .div (.read 0) (.assign 0 (.fast 0))]

def Program.overwriting : Program :=
  ⟨[.assign 0 (.fast 2)], .binary .div true (.read 0) (.assign 0 (.fast 0))⟩

theorem drafts_read_filled_slots_overwriting :
    let i : Interpreter := { store := Builder.dividing.store.fresh }
    (∃ nodes, Builder.dividing.Drafts nodes (Program.overwriting.statements.map Node.unsettled)) ∧
      (i.run .overwriting).result = .error .divisionByZero ∧
      ∀ slot, (i.run .overwriting).result ≠ .error (.uninitializedRead slot) := by
  intro i
  have hdeclared := ((Builder.Drafts.start.call (.fast 2) nofun rfl).declare "x" (.fast 2)
    (by decide +kernel)).declare "x" (.fast 2) (by decide +kernel)
  have hassigned := (hdeclared.call (.fast 0) nofun rfl).call (.assign "x" (.fast 0))
    (by decide +kernel) rfl
  have hdivided := ((hassigned.call (.read "x") nofun rfl).call
    (.binary .div (.read 0) (.assign 0 (.fast 0))) (by decide +kernel) rfl).statement
    (n := .binary .div false (.read 0) (.assign 0 (.fast 0))) (by decide +kernel)
  obtain ⟨nodes, statements, rfl, h⟩ : ∃ nodes statements,
      statements = Program.overwriting.statements.map Node.unsettled ∧
        Builder.dividing.Drafts nodes statements := ⟨_, _, by decide +kernel, hdivided⟩
  refine ⟨⟨nodes, h⟩, by decide +kernel, ?_⟩
  exact (drafts_read_filled_slots h (p := .overwriting) rfl rfl i (Store.size_fresh _)).1

end AdaptiveCalc
