import AdaptiveCalc.Proofs.Evaluation.Runs
import AdaptiveCalc.Proofs.Plain
import Mathlib.Data.Option.Basic

/-!
# Integers are exact

An integer that a run gives, or keeps in a slot, has been reached without any rounding,
for a decimal is never taken back to an integer. So it is the number of the exact
evaluation, which may have diverged from the run in every decimal. Main statement:
`fast_exact`.
-/
namespace AdaptiveCalc

/-- An integer is the exact number; about a decimal nothing is said. -/
def Value.Tracks : Value → ℚ → Prop
  | .fast n, x => x = n.toInt
  | .precise _, _ => True

def Contents.Tracks : Contents → Option ℚ → Prop
  | .empty, x => x = none
  | .fast n, x => x = some (n.toInt : ℚ)
  | .precise _, x => ∃ y, x = some y

/-- Both have the same slots, empty ones in the same places, and the integers are exact. -/
def Store.Tracks (s : Store) (m : Memory) : Prop :=
  ∀ slot, Option.Rel Contents.Tracks (s.contents? slot) (m slot)

namespace Contents

theorem tracks_value? (c : Contents) : c.Tracks (c.value?.map Value.toRat) := by
  cases c with
  | empty => rfl
  | fast n => exact congrArg some (Value.toRat_fast n)
  | precise d => exact ⟨_, rfl⟩

theorem tracks_write (c : Contents) {v : Value} {x : ℚ} (h : v.Tracks x) :
    (c.write v).Tracks (some x) := by
  cases c with
  | precise d => exact ⟨_, rfl⟩
  | empty | fast =>
    cases v with
    | fast n => exact congrArg some h
    | precise d => exact ⟨_, rfl⟩

end Contents

namespace Store

theorem tracks_numbers (s : Store) : s.Tracks s.numbers := by
  intro slot
  rw [numbers]
  cases s.contents? slot with
  | none => exact .none
  | some c => exact .some c.tracks_value?

variable {s t : Store} {m : Memory} {slot : ℕ} {v : Value}

theorem Tracks.read (h : s.Tracks m) (hread : s.read slot = .ok v) :
    ∃ x, m.read slot = .ok x ∧ v.Tracks x := by
  have hslot := h slot
  unfold Store.read at hread
  unfold Memory.read
  generalize s.contents? slot = a at hread hslot
  generalize m slot = b at hslot
  cases hslot with
  | none => cases hread
  | @some c y hc =>
    cases c with
    | empty => cases hread
    | fast n =>
      cases hc
      cases hread
      exact ⟨_, rfl, rfl⟩
    | precise d =>
      obtain ⟨x, rfl⟩ := hc
      cases hread
      exact ⟨x, rfl, trivial⟩

theorem Tracks.write (h : s.Tracks m) {x : ℚ} (hv : v.Tracks x)
    (hwrite : s.write slot v = .ok t) : ∃ m', m.write slot x = .ok m' ∧ t.Tracks m' := by
  have hslot := h slot
  obtain ⟨c, hc⟩ := exists_contents?_of_write hwrite
  rw [hc] at hslot
  generalize hb : m slot = b at hslot
  cases hslot with
  | some _ =>
    refine ⟨Function.update m slot (some (some x)), by rw [Memory.write, hb], fun i => ?_⟩
    rw [contents?_of_write hwrite]
    by_cases hi : slot = i
    · subst hi
      rw [if_pos rfl, hc, Function.update_self]
      exact .some (c.tracks_write hv)
    · rw [if_neg hi, Function.update_of_ne (Ne.symm hi)]
      exact h i

end Store

namespace Value

theorem applyPrecise_ne_fast (op : Operator) (precision : ℕ) (v w : Value) (n : Int64) :
    applyPrecise op precision v w ≠ .ok (.fast n) := by
  unfold applyPrecise
  cases Decimal.apply op precision v.toDecimal w.toDecimal <;> simp [Except.map]

theorem exists_fast_of_apply {op : Operator} {precision : ℕ} {v w : Value} {n : Int64}
    (h : Value.apply op precision v w = .ok (.fast n)) :
    ∃ a b, v = .fast a ∧ w = .fast b ∧ Fast.apply op a b = .ok n := by
  unfold Value.apply at h
  split at h
  · next a b =>
    split at h
    · next m hm =>
      cases h
      exact ⟨a, b, rfl, rfl, hm⟩
    · exact absurd h (applyPrecise_ne_fast _ _ _ _ _)
  · exact absurd h (applyPrecise_ne_fast _ _ _ _ _)

end Value

section
variable {c : ℚ} {settings : Settings}

theorem Plain.apply_exact (op : Operator) (x y : ℚ) (maxDepth : ℕ) :
    ∃ z, (exact c maxDepth).apply op x y = .ok z := by
  cases op <;> exact ⟨_, rfl⟩

theorem Plain.apply_exact_of_fast {op : Operator} {a b n : Int64} (h : Fast.apply op a b = .ok n)
    (maxDepth : ℕ) : (exact c maxDepth).apply op a.toInt b.toInt = .ok n.toInt := by
  refine apply_of_fast h fun _ hb hn => ?_
  simp only [exact, if_neg hb, hn]

/-- The result of a site beside that of the exact operation. -/
theorem applySite_tracks {op : Operator} {precision : ℕ} {b : Bool} {v w r : Value} {x y : ℚ}
    (hv : v.Tracks x) (hw : w.Tracks y)
    (hr : (applySite op precision b v w).result = .ok r) (maxDepth : ℕ) :
    ∃ z, (Plain.exact c maxDepth).apply op x y = .ok z ∧ r.Tracks z := by
  rw [result_applySite] at hr
  cases r with
  | precise d =>
    obtain ⟨z, hz⟩ := Plain.apply_exact (c := c) op x y maxDepth
    exact ⟨z, hz, trivial⟩
  | fast n =>
    split_ifs at hr
    · exact absurd hr (Value.applyPrecise_ne_fast _ _ _ _ _)
    · obtain ⟨p, q, rfl, rfl, hn⟩ := Value.exists_fast_of_apply hr
      obtain rfl : x = p.toInt := hv
      obtain rfl : y = q.toInt := hw
      exact ⟨n.toInt, Plain.apply_exact_of_fast hn maxDepth, rfl⟩

/-- A successful evaluation beside the exact one, from stores that agree on integers. -/
theorem Evaluates.tracks {n : Node} {s : State} {o : Outcome} {xs : List Visit}
    (h : Evaluates settings n s o xs) {v : Value} (hv : o.result = .ok v) {m : Memory}
    (hm : s.store.Tracks m) :
    ∃ x m', (Plain.exact c settings.maxDepth).evaluate s.depth n m = ⟨.ok x, m'⟩ ∧
      v.Tracks x ∧ o.state.store.Tracks m' := by
  induction h generalizing v m with
  | tooDeep | readFailed | assignFailed | writeFailed | negateFailed | leftFailed | rightFailed =>
    cases hv
  | fast hd =>
    cases hv
    exact ⟨_, m, Plain.evaluate_fast hd _, rfl, hm⟩
  | precise hd =>
    cases hv
    exact ⟨_, m, Plain.evaluate_precise hd _, trivial, hm⟩
  | read hd hread =>
    cases hv
    obtain ⟨x, hx, htracks⟩ := hm.read hread
    refine ⟨x, m, ?_, htracks, hm⟩
    rw [Plain.evaluate_read hd, hx]
  | assign hd _ hwrite ih =>
    cases hv
    obtain ⟨x, m₁, he, htracks, hm₁⟩ := ih rfl hm
    obtain ⟨m₂, hm₂, hstore⟩ := hm₁.write htracks hwrite
    refine ⟨x, m₂, ?_, htracks, hstore⟩
    rw [State.depth_enter] at he
    rw [Plain.evaluate_assign hd, he, Reckoning.andThen_ok, Reckoning.store, hm₂]
  | negate hd _ ha ih =>
    obtain ⟨x, m₁, he, htracks, hm₁⟩ := ih rfl hm
    rw [← ha] at hv
    have hzero : (Value.fast 0).Tracks 0 := by simp [Value.Tracks]
    obtain ⟨z, hz, hr⟩ := applySite_tracks (c := c) hzero htracks hv settings.maxDepth
    refine ⟨-x, m₁, ?_, ?_, ?_⟩
    · rw [State.depth_enter] at he
      rw [Plain.evaluate_negate hd, he, Reckoning.andThen_ok]
    · obtain rfl : -x = z := by simpa [Plain.apply] using hz
      exact hr
    · rw [State.store_leave, State.store_settling]
      exact hm₁
  | binary hd hl _ ha ihl ihr =>
    obtain ⟨x, m₁, hl', hx, hm₁⟩ := ihl rfl hm
    obtain ⟨y, m₂, hr', hy, hm₂⟩ := ihr rfl hm₁
    rw [← ha] at hv
    obtain ⟨z, hz, hr⟩ := applySite_tracks (c := c) hx hy hv settings.maxDepth
    refine ⟨z, m₂, ?_, hr, ?_⟩
    · rw [State.depth_enter] at hl'
      rw [hl.depth_eq, State.depth_enter] at hr'
      rw [Plain.evaluate_binary hd, hl', Reckoning.andThen_ok, hr', Reckoning.andThen_ok, hz]
    · rw [State.store_leave, State.store_settling]
      exact hm₂

theorem Executes.tracks {index : ℕ} {leading : List Node} {last : Node} {s : State}
    {e : Ending} {xss : List (List Visit)} (h : Executes settings index leading last s e xss)
    {v : Value} (hv : e.result = .ok v) {m : Memory} (hm : s.store.Tracks m) :
    ∃ x m', (Plain.exact c settings.maxDepth).runFrom s.depth leading last m = ⟨.ok x, m'⟩ ∧
      v.Tracks x ∧ e.state.store.Tracks m' := by
  induction h generalizing m with
  | last hn => exact hn.tracks hv hm
  | failed => cases hv
  | next hn _ ih =>
    obtain ⟨x, m₁, hfirst, -, hm₁⟩ := hn.tracks rfl hm
    obtain ⟨y, m₂, hrest, hy, hm₂⟩ := ih hv hm₁
    refine ⟨y, m₂, ?_, hy, hm₂⟩
    rw [State.depth_emit] at hfirst
    rw [hn.depth_eq, State.depth_emit] at hrest
    rw [Plain.runFrom, hfirst, Reckoning.andThen_ok, hrest]

end

/-- An integer that a run gives is the value of the program in exact arithmetic, and an
integer in a slot is what the exact evaluation leaves there, with any precision, any
settled bits, and any number `c` for a division by zero. -/
theorem fast_exact (i : Interpreter) (p : Program) (v : Value) (hv : (i.run p).result = .ok v)
    (c : ℚ) :
    ∃ x m, (Plain.exact c i.settings.maxDepth).run i.depth p i.store.numbers = ⟨.ok x, m⟩ ∧
      (∀ n : Int64, v = .fast n → x = n.toInt) ∧
      ∀ (slot : ℕ) (n : Int64), (i.run p).interpreter.store.contents? slot = some (.fast n) →
        m slot = some (some (n.toInt : ℚ)) := by
  obtain ⟨x, m, hrun, hx, hm⟩ := (i.executes p).tracks (c := c) hv i.store.tracks_numbers
  refine ⟨x, m, hrun, ?_, ?_⟩
  · rintro n rfl
    exact hx
  · intro slot n hn
    have hslot := hm slot
    dsimp only at hslot
    rw [hn] at hslot
    generalize m slot = b at hslot ⊢
    cases hslot with
    | some h => exact congrArg some h

def Interpreter.oneDigit : Interpreter :=
  { store := ⟨#[⟨"x", .empty⟩, ⟨"y", .empty⟩]⟩, settings := { divisionPrecision := 1 } }

/-- A third and a half of six are kept, and the half is squared. -/
def Program.squareOfHalf : Program :=
  ⟨[.assign 0 (.binary .div false (.fast 1) (.fast 3)),
    .assign 1 (.binary .div false (.fast 6) (.fast 2))],
    .binary .mul false (.read 1) (.read 1)⟩

theorem fast_exact_squareOfHalf :
    (Interpreter.oneDigit.run .squareOfHalf).result = .ok (.fast 9) ∧
      (Interpreter.oneDigit.run .squareOfHalf).interpreter.store.contents? 1 = some (.fast 3) ∧
      ∃ m, (Plain.exact 0 Interpreter.oneDigit.settings.maxDepth).run Interpreter.oneDigit.depth
        .squareOfHalf Interpreter.oneDigit.store.numbers = ⟨.ok 9, m⟩ ∧ m 1 = some (some 3) := by
  have hresult : (Interpreter.oneDigit.run .squareOfHalf).result = .ok (.fast 9) := by
    decide +kernel
  have hslot : (Interpreter.oneDigit.run .squareOfHalf).interpreter.store.contents? 1 =
      some (.fast 3) := by decide +kernel
  obtain ⟨x, m, hrun, hx, hm⟩ := fast_exact .oneDigit .squareOfHalf (.fast 9) hresult 0
  have hnine : x = 9 := hx 9 rfl
  subst hnine
  exact ⟨hresult, hslot, m, hrun, hm 1 3 hslot⟩

end AdaptiveCalc
