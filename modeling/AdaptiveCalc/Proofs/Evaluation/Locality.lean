import AdaptiveCalc.Proofs.Evaluation.Order
import AdaptiveCalc.Proofs.Evaluation.Slots

/-!
# Evaluation is local

An evaluation sees of a store the slots that its tree mentions, and changes those that the
tree assigns. On two stores that agree on the slots of a tree, whatever else they hold and
whatever their variables are called, it goes the same way and keeps the agreement, up to
its end or up to the error that stops it. Main statement: `eval_is_local`.
-/
namespace AdaptiveCalc
namespace Store

/-- Some slots hold the same in both stores, or are missing from both. -/
def AgreesOn (s t : Store) (slots : List ℕ) : Prop :=
  ∀ slot ∈ slots, t.contents? slot = s.contents? slot

instance (s t : Store) (slots : List ℕ) : Decidable (s.AgreesOn t slots) :=
  inferInstanceAs (Decidable (∀ slot ∈ slots, t.contents? slot = s.contents? slot))

/-- A store in which nothing has changed but the contents of some slots. -/
structure ChangesOnly (s : Store) (slots : List ℕ) (t : Store) : Prop where
  names_eq : t.names = s.names
  size_eq : t.size = s.size
  contents_eq : ∀ slot ∉ slots, t.contents? slot = s.contents? slot

theorem ChangesOnly.of_writeAll {s t : Store} {ws : List Write} {slots : List ℕ}
    (h : s.writeAll ws = .ok t) (hws : ws.map Write.slot ⊆ slots) : s.ChangesOnly slots t where
  names_eq := names_of_writeAll h
  size_eq := by rw [← length_names, names_of_writeAll h, length_names]
  contents_eq := by
    intro slot hslot
    exact contents?_of_writeAll h fun hmem => hslot (hws hmem)

section
variable {s s' t : Store} {slot : ℕ} {v : Value} {x : EvalError}

theorem read_congr (h : s'.contents? slot = s.contents? slot) : s'.read slot = s.read slot := by
  rw [read, read, h]

theorem demotedBy_congr (h : s'.contents? slot = s.contents? slot) (v : Value) :
    s'.demotedBy slot v = s.demotedBy slot v := by
  rw [demotedBy, demotedBy, h]

/-- The contents of a slot say whether there is the slot. -/
theorem lt_size_congr (h : s'.contents? slot = s.contents? slot) :
    slot < s'.size ↔ slot < s.size := by
  rw [← Nat.not_le, ← Nat.not_le, ← contents?_eq_none_iff, ← contents?_eq_none_iff, h]

theorem write_error_congr (h : s'.contents? slot = s.contents? slot)
    (hwrite : s.write slot v = .error x) : s'.write slot v = .error x := by
  have hlt := lt_size_congr h
  unfold write at hwrite ⊢
  split at hwrite
  · cases hwrite
  · next hslot => rw [if_neg (mt hlt.1 hslot), hwrite]

variable {slots : List ℕ}

theorem AgreesOn.write (h : s.AgreesOn s' slots) (hslot : slot ∈ slots)
    (hwrite : s.write slot v = .ok t) :
    ∃ t', s'.write slot v = .ok t' ∧ t.AgreesOn t' slots := by
  have hlt : slot < s.size := by
    by_contra hle
    rw [Store.write, if_neg hle] at hwrite
    cases hwrite
  obtain ⟨t', hwrite'⟩ := exists_write_of_lt ((lt_size_congr (h slot hslot)).2 hlt) v
  refine ⟨t', hwrite', ?_⟩
  intro k hk
  rw [contents?_of_write hwrite, contents?_of_write hwrite', h k hk]

end
end Store

namespace State

def withStore (s : State) (S : Store) : State := { s with store := S }

theorem withStore_settling (s : State) (S : Store) (op : Operator) (f : Option Fast.Failure) :
    (s.settling op f).withStore S = (s.withStore S).settling op f := by
  cases f <;> rfl

end State

/-- On a store that agrees with the first on all slots of the tree, and perhaps on others, an
evaluation goes as it goes on the first. -/
theorem Evaluates.agrees {settings : Settings} {n : Node} {s : State} {o : Outcome}
    {xs : List Visit} (h : Evaluates settings n s o xs) {slots : List ℕ} (hn : n.slots ⊆ slots)
    {S : Store} (hS : s.store.AgreesOn S slots) :
    ∃ T, o.state.store.AgreesOn T slots ∧
      Evaluates settings n (s.withStore S) ⟨o.result, o.node, o.state.withStore T⟩ xs := by
  induction h generalizing S with
  | tooDeep hd => exact ⟨S, hS, .tooDeep hd⟩
  | fast hd => exact ⟨S, hS, .fast hd⟩
  | precise hd => exact ⟨S, hS, .precise hd⟩
  | readFailed hd hread =>
    have hslot := hS _ (hn List.mem_cons_self)
    exact ⟨S, hS, .readFailed hd ((Store.read_congr hslot).trans hread)⟩
  | read hd hread =>
    have hslot := hS _ (hn List.mem_cons_self)
    exact ⟨S, hS, .read (s := State.withStore _ S) hd ((Store.read_congr hslot).trans hread)⟩
  | assignFailed hd _ ih =>
    obtain ⟨T, hT, he⟩ := ih (List.cons_subset.1 hn).2 hS
    exact ⟨T, hT, .assignFailed (s := State.withStore _ S) hd he⟩
  | writeFailed hd _ hwrite ih =>
    obtain ⟨hslot, hexpr⟩ := List.cons_subset.1 hn
    obtain ⟨T, hT, he⟩ := ih hexpr hS
    have hwrite' := Store.write_error_congr (hT _ hslot) hwrite
    exact ⟨T, hT, .writeFailed (s := State.withStore _ S) hd he hwrite'⟩
  | assign hd _ hwrite ih =>
    obtain ⟨hslot, hexpr⟩ := List.cons_subset.1 hn
    obtain ⟨T, hT, he⟩ := ih hexpr hS
    obtain ⟨T', hwrite', hT'⟩ := hT.write hslot hwrite
    refine ⟨T', hT', ?_⟩
    rw [← Store.demotedBy_congr (hT _ hslot)]
    exact .assign (s := State.withStore _ S) hd he hwrite'
  | negateFailed hd _ ih =>
    obtain ⟨T, hT, he⟩ := ih hn hS
    exact ⟨T, hT, .negateFailed (s := State.withStore _ S) hd he⟩
  | negate hd _ ha ih =>
    obtain ⟨T, hT, he⟩ := ih hn hS
    have hsite := Evaluates.negate (s := State.withStore _ S) hd he ha
    rw [← State.withStore_settling] at hsite
    refine ⟨T, ?_, hsite⟩
    rw [State.store_leave, State.store_settling]
    exact hT
  | leftFailed hd _ ih =>
    obtain ⟨T, hT, hl⟩ := ih (List.append_subset.1 hn).1 hS
    exact ⟨T, hT, .leftFailed (s := State.withStore _ S) hd hl⟩
  | rightFailed hd _ _ ihl ihr =>
    obtain ⟨hleft, hright⟩ := List.append_subset.1 hn
    obtain ⟨T, hT, hl⟩ := ihl hleft hS
    obtain ⟨U, hU, hr⟩ := ihr hright hT
    exact ⟨U, hU, .rightFailed (s := State.withStore _ S) hd hl hr⟩
  | binary hd _ _ ha ihl ihr =>
    obtain ⟨hleft, hright⟩ := List.append_subset.1 hn
    obtain ⟨T, hT, hl⟩ := ihl hleft hS
    obtain ⟨U, hU, hr⟩ := ihr hright hT
    have hsite := Evaluates.binary (s := State.withStore _ S) hd hl hr ha
    rw [← State.withStore_settling] at hsite
    refine ⟨U, ?_, hsite⟩
    rw [State.store_leave, State.store_settling]
    exact hU

namespace Interpreter

theorem writes_eval_subset (i : Interpreter) (n : Node) :
    (Event.writes (i.eval n).events).map Write.slot ⊆ n.targets := by
  have hthrough := (i.evaluates n).goesThrough
  rw [← List.flatMap_singleton Node.accesses n] at hthrough
  have hprefix := writes_of_goesThrough hthrough rfl
  rw [List.flatMap_singleton] at hprefix
  exact hprefix.subset

theorem changesOnly_eval (i : Interpreter) (n : Node) :
    i.store.ChangesOnly n.targets (i.eval n).interpreter.store :=
  .of_writeAll (i.writeAll_eval n) (i.writes_eval_subset n)

end Interpreter

/-- On two stores that agree on the slots of a tree an evaluation has one result, settles the
same sites and does the same, and the stores agree on these slots afterwards. On each of them
it leaves all as it was but the slots that the tree assigns. -/
theorem eval_is_local (i : Interpreter) (n : Node) {S : Store} (h : i.store.AgreesOn S n.slots) :
    let e := i.eval n
    let e' := { i with store := S }.eval n
    e'.result = e.result ∧ e'.subject = e.subject ∧ e'.events = e.events ∧
      e.interpreter.store.AgreesOn e'.interpreter.store n.slots ∧
      i.store.ChangesOnly n.targets e.interpreter.store ∧
      S.ChangesOnly n.targets e'.interpreter.store := by
  intro e e'
  obtain ⟨T, hT, heval⟩ := (i.evaluates n).agrees (List.Subset.refl _) h
  obtain ⟨ho, -⟩ := ({ i with store := S } : Interpreter).evaluates n |>.unique heval
  simp only [Outcome.mk.injEq, State.withStore, State.mk.injEq, List.reverse_inj] at ho
  obtain ⟨hresult, hsubject, hstore, -, hevents⟩ := ho
  refine ⟨hresult, hsubject, hevents, ?_, i.changesOnly_eval n, ?_⟩
  · rw [hstore]
    exact hT
  · exact Interpreter.changesOnly_eval { i with store := S } n

/-- A slot that both stores lack ends the evaluation, after a site has settled and a decimal
has been written. The stores have other names and are not of one size. -/
theorem eval_is_local_missingSlot :
    let i : Interpreter := { store := ⟨#[⟨"x", .fast 7⟩, ⟨"y", .empty⟩, ⟨"z", .fast 1⟩]⟩ }
    let S : Store := ⟨#[⟨"a", .fast 7⟩, ⟨"b", .empty⟩]⟩
    let n : Node :=
      .binary .add false (.assign 1 (.binary .div false (.read 0) (.fast 2))) (.read 9)
    i.store.AgreesOn S n.slots ∧ (i.eval n).subject ≠ n ∧
      ({ i with store := S }.eval n).result = (i.eval n).result ∧
      ({ i with store := S }.eval n).subject = (i.eval n).subject ∧
      S.ChangesOnly n.targets ({ i with store := S }.eval n).interpreter.store := by
  intro i S n
  have hagrees : i.store.AgreesOn S n.slots := by decide
  obtain ⟨hresult, hsubject, -, -, -, hchanges⟩ := eval_is_local i n hagrees
  exact ⟨hagrees, by decide +kernel, hresult, hsubject, hchanges⟩

end AdaptiveCalc
