import AdaptiveCalc.Proofs.Evaluation.Slots

/-!
# Slots that hold values

A slot that has been written can be read from then on. So where the trees of a program are
given slots in turn, each tree mentioning only slots that the trees before it have filled, no
read comes too early, whichever of the trees then fails for another reason. Main statement:
`Executes.endsFilled`.
-/
namespace AdaptiveCalc
namespace Store
variable {s t : Store} {slot k : ℕ} {v : Value}

/-- The first `k` slots hold values. -/
def FilledBelow (s : Store) (k : ℕ) : Prop := ∀ slot < k, ∃ v, s.read slot = .ok v

theorem lt_size_of_read (h : s.read slot = .ok v) : slot < s.size := by
  by_contra hle
  rw [read, contents?_eq_none_iff.2 (Nat.not_lt.1 hle)] at h
  cases h

theorem FilledBelow.le_size (h : s.FilledBelow k) : k ≤ s.size := by
  cases k with
  | zero => exact Nat.zero_le _
  | succ k =>
    obtain ⟨v, hv⟩ := h k (Nat.lt_succ_self k)
    exact lt_size_of_read hv

theorem exists_read_of_write (h : s.write slot v = .ok t) : ∃ w, t.read slot = .ok w := by
  obtain ⟨c, hc⟩ := exists_contents?_of_write h
  simp [read, contents?_of_write h, hc, Contents.value?_write]

theorem read_of_write_of_ne (h : s.write slot v = .ok t) (hne : slot ≠ k) :
    t.read k = s.read k := by
  rw [read, read, contents?_of_write h, if_neg hne]

theorem FilledBelow.write (hs : s.FilledBelow k) (h : s.write slot v = .ok t) :
    t.FilledBelow k := by
  intro i hi
  by_cases hslot : slot = i
  · rw [← hslot]
    exact exists_read_of_write h
  · rw [read_of_write_of_ne h hslot]
    exact hs i hi

theorem FilledBelow.write_next (hs : s.FilledBelow k) (h : s.write k v = .ok t) :
    t.FilledBelow (k + 1) := by
  intro i hi
  rcases Nat.lt_succ_iff_lt_or_eq.1 hi with hlt | rfl
  · exact hs.write h i hlt
  · exact exists_read_of_write h

end Store

/-- How a call ends that reads no slot before it is filled: it fails for other reasons, or
it leaves the first `k` slots filled. -/
structure EndsFilled (settings : Settings) (k : ℕ) (result : Except EvalError Value)
    (store : Store) : Prop where
  error : ∀ e, result = .error e → e = .divisionByZero ∨ e = .depthExceeded settings.maxDepth
  filled : ∀ v, result = .ok v → store.FilledBelow k

namespace EndsFilled
variable {settings : Settings} {k : ℕ} {store : Store}

theorem of_ok {v : Value} (h : store.FilledBelow k) : EndsFilled settings k (.ok v) store :=
  ⟨nofun, fun _ _ => h⟩

theorem of_tooDeep : EndsFilled settings k (.error (.depthExceeded settings.maxDepth)) store := by
  refine ⟨fun e he => ?_, nofun⟩
  cases he
  exact .inr rfl

theorem of_error {e : EvalError} {store' : Store} {k' : ℕ}
    (h : EndsFilled settings k (.error e) store) : EndsFilled settings k' (.error e) store' :=
  ⟨h.error, nofun⟩

theorem of_applySite {op : Operator} {precision : ℕ} {b : Bool} {v w : Value}
    (h : store.FilledBelow k) :
    EndsFilled settings k (applySite op precision b v w).result store :=
  ⟨fun _ he => .inl (eq_divisionByZero_of_applySite he), fun _ _ => h⟩

end EndsFilled

section
variable {settings : Settings} {k : ℕ}

theorem Evaluates.endsFilled {n : Node} {s : State} {o : Outcome} {xs : List Visit}
    (h : Evaluates settings n s o xs) (hn : n.SlotsBelow k) (hs : s.store.FilledBelow k) :
    EndsFilled settings k o.result o.state.store := by
  induction h with
  | tooDeep => exact .of_tooDeep
  | fast | precise | read => exact .of_ok hs
  | readFailed _ hread =>
    obtain ⟨v, hv⟩ := hs _ (Node.slotsBelow_read.1 hn)
    cases hread.symm.trans hv
  | assignFailed _ _ ih => exact (ih (Node.slotsBelow_assign.1 hn).2 hs).of_error
  | writeFailed _ _ hwrite ih =>
    obtain ⟨hslot, he⟩ := Node.slotsBelow_assign.1 hn
    have hle := ((ih he hs).filled _ rfl).le_size
    obtain ⟨t, ht⟩ := Store.exists_write_of_lt (Nat.lt_of_lt_of_le hslot hle) _
    cases hwrite.symm.trans ht
  | assign _ _ hwrite ih =>
    have hfilled := (ih (Node.slotsBelow_assign.1 hn).2 hs).filled _ rfl
    exact .of_ok (hfilled.write hwrite)
  | negateFailed _ _ ih => exact (ih hn hs).of_error
  | negate _ _ ha ih =>
    subst ha
    exact .of_applySite (by simpa using (ih hn hs).filled _ rfl)
  | leftFailed _ _ ih => exact (ih (Node.slotsBelow_binary.1 hn).1 hs).of_error
  | rightFailed _ _ _ ihl ihr =>
    obtain ⟨hl, hr⟩ := Node.slotsBelow_binary.1 hn
    exact (ihr hr ((ihl hl hs).filled _ rfl)).of_error
  | binary _ _ _ ha ihl ihr =>
    subst ha
    obtain ⟨hl, hr⟩ := Node.slotsBelow_binary.1 hn
    have hfilled := (ihr hr ((ihl hl hs).filled _ rfl)).filled _ rfl
    exact .of_applySite (by simpa using hfilled)

/-- An assignment to the next slot fills it, if its expression makes do with those before. -/
theorem Evaluates.endsFilled_next {e : Node} {s : State} {o : Outcome} {xs : List Visit}
    (h : Evaluates settings (.assign k e) s o xs) (he : e.SlotsBelow k)
    (hs : s.store.FilledBelow k) (hk : k < s.store.size) :
    EndsFilled settings (k + 1) o.result o.state.store := by
  cases h with
  | tooDeep => exact .of_tooDeep
  | assignFailed _ hexpr => exact (hexpr.endsFilled he hs).of_error
  | writeFailed _ hexpr hwrite =>
    have hsize := (hexpr.staysDeclared (he.mono (Nat.le_of_lt hk))).size_eq
    obtain ⟨t, ht⟩ := Store.exists_write_of_lt (hsize ▸ hk) _
    cases hwrite.symm.trans ht
  | assign _ hexpr hwrite =>
    exact .of_ok (((hexpr.endsFilled he hs).filled _ rfl).write_next hwrite)

end

/-- Statements that begin with `k` filled slots and end with `m` of them. Each mentions only
slots that are filled by then, but for the assignments that fill the next slot. -/
inductive FillsInTurn : ℕ → List Node → ℕ → Prop
  | nil {k : ℕ} : FillsInTurn k [] k
  | use {k m : ℕ} {n : Node} {rest : List Node} (hn : n.SlotsBelow k)
      (hrest : FillsInTurn k rest m) : FillsInTurn k (n :: rest) m
  | fill {k m : ℕ} {e : Node} {rest : List Node} (he : e.SlotsBelow k)
      (hrest : FillsInTurn (k + 1) rest m) : FillsInTurn k (.assign k e :: rest) m

namespace FillsInTurn
variable {k l m : ℕ} {ns ms : List Node}

theorem le (h : FillsInTurn k ns m) : k ≤ m := by
  induction h with
  | nil => exact Nat.le_refl _
  | use _ _ ih => exact ih
  | fill _ _ ih => exact Nat.le_of_succ_le ih

theorem append (h₁ : FillsInTurn k ns l) (h₂ : FillsInTurn l ms m) :
    FillsInTurn k (ns ++ ms) m := by
  induction h₁ with
  | nil => exact h₂
  | use hn _ ih => exact .use hn (ih h₂)
  | fill he _ ih => exact .fill he (ih h₂)

theorem congr (h : FillsInTurn k ns m) (hbits : ms.map Node.unsettled = ns.map Node.unsettled) :
    FillsInTurn k ms m := by
  have hbelow : ∀ {n n' : Node} {k : ℕ}, n'.unsettled = n.unsettled → n.SlotsBelow k →
      n'.SlotsBelow k := by
    intro n n' k hn h
    rwa [Node.SlotsBelow, Node.slots_congr hn]
  induction h generalizing ms with
  | nil =>
    rw [List.map_eq_nil_iff.1 hbits]
    exact .nil
  | use hn _ ih =>
    obtain ⟨n', rest', rfl, hn', hrest'⟩ := List.map_eq_cons_iff.1 hbits
    exact .use (hbelow hn' hn) (ih hrest')
  | fill he _ ih =>
    obtain ⟨n', rest', rfl, hn', hrest'⟩ := List.map_eq_cons_iff.1 hbits
    cases n' with
    | assign slot e' =>
      injection hn' with hslot he'
      subst hslot
      exact .fill (hbelow he' he) (ih hrest')
    | _ => cases hn'

end FillsInTurn

/-- One statement of those that fill slots in turn: where it leads, and what is left to do. -/
theorem Evaluates.endsFilled_statement {settings : Settings} {k m : ℕ} {n : Node}
    {rest : List Node} {s : State} {o : Outcome} {xs : List Visit}
    (h : Evaluates settings n s o xs) (hn : FillsInTurn k (n :: rest) m)
    (hs : s.store.FilledBelow k) (hm : m ≤ s.store.size) :
    o.state.store.size = s.store.size ∧
      ∃ l, EndsFilled settings l o.result o.state.store ∧ FillsInTurn l rest m := by
  cases hn with
  | use hn hrest =>
    have hsize := (h.staysDeclared (hn.mono (Nat.le_trans hrest.le hm))).size_eq
    exact ⟨hsize, k, h.endsFilled hn hs, hrest⟩
  | fill he hrest =>
    have hk : k < s.store.size := Nat.le_trans hrest.le hm
    have hslots : (Node.assign k _).SlotsBelow s.store.size :=
      Node.slotsBelow_assign.2 ⟨hk, he.mono (Nat.le_of_lt hk)⟩
    exact ⟨(h.staysDeclared hslots).size_eq, k + 1, h.endsFilled_next he hs hk, hrest⟩

/-- A run of statements that fill slots in turn reads no slot before it is filled. -/
theorem Executes.endsFilled {settings : Settings} {index k m : ℕ} {leading : List Node}
    {last : Node} {s : State} {e : Ending} {xss : List (List Visit)}
    (h : Executes settings index leading last s e xss)
    (hfills : FillsInTurn k (leading ++ [last]) m) (hs : s.store.FilledBelow k)
    (hm : m ≤ s.store.size) : EndsFilled settings m e.result e.state.store := by
  induction h generalizing k with
  | last hn =>
    obtain ⟨-, l, hends, hrest⟩ := hn.endsFilled_statement hfills hs hm
    cases hrest
    exact hends
  | failed hn =>
    obtain ⟨-, l, hends, -⟩ := hn.endsFilled_statement hfills hs hm
    exact hends.of_error
  | next hn _ ih =>
    obtain ⟨hsize, l, hends, hrest⟩ := hn.endsFilled_statement hfills hs hm
    exact ih hrest (hends.filled _ rfl) (hsize ▸ hm)

theorem Interpreter.endsFilled_run (i : Interpreter) {p : Program}
    (h : FillsInTurn 0 p.statements i.store.size) :
    EndsFilled i.settings i.store.size (i.run p).result (i.run p).interpreter.store :=
  (i.executes p).endsFilled h (fun _ hslot => absurd hslot (Nat.not_lt_zero _)) (Nat.le_refl _)

end AdaptiveCalc
