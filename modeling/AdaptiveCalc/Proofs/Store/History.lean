import AdaptiveCalc.Proofs.Evaluation.Writes
import AdaptiveCalc.Proofs.Store.Kind
import AdaptiveCalc.Proofs.Store.Table

/-!
# The history of a store

A store goes through declarations, writes and reads, one by one or within the runs and
evaluations of interpreters that keep it. Whatever the calls and however they end, a slot
holds the last value that was written to it, and its kind tells which kinds of values
were written. Main statement: `store_keeps_last_written`.
-/
namespace AdaptiveCalc
namespace Store

/-- A call on a store, or on an interpreter that keeps the store. -/
inductive Call where
  | declare (name : String)
  | resolve (name : String)
  | read (slot : ℕ)
  | write (slot : ℕ) (value : Value)
  /-- What follows is done to the copy. -/
  | clone
  | fresh
  | run (settings : Settings) (depth : ℕ) (p : Program)
  | eval (settings : Settings) (depth : ℕ) (n : Node)

/-- A store, and what has been written to it since it was made or made fresh. -/
structure History where
  store : Store := {}
  writes : List Write := []

namespace History

def evaluated {α : Type} (h : History) (e : Evaluation α) : History :=
  ⟨e.interpreter.store, h.writes ++ Event.writes e.events⟩

/-- A call that fails leaves the store as it was, but for the writes that a run or an
evaluation has done before it failed. -/
def call (h : History) : Call → History
  | .declare name =>
    match h.store.declare name with
    | .ok (_, t) => { h with store := t }
    | .error _ => h
  | .resolve _ | .read _ | .clone => h
  | .write slot v =>
    match h.store.write slot v with
    | .ok t => ⟨t, h.writes ++ [⟨slot, v⟩]⟩
    | .error _ => h
  | .fresh => ⟨h.store.fresh, []⟩
  | .run settings depth p =>
    h.evaluated (({ store := h.store, settings, depth } : Interpreter).run p)
  | .eval settings depth n =>
    h.evaluated (({ store := h.store, settings, depth } : Interpreter).eval n)

def after (calls : List Call) : History := calls.foldl call {}

theorem after_append (calls more : List Call) :
    after (calls ++ more) = more.foldl call (after calls) := List.foldl_append

/-- The values written to a slot, the latest one last. -/
def written (h : History) (slot : ℕ) : List Value :=
  (h.writes.filter (·.slot = slot)).map Write.value

/-- The slots hold what was written to them, and only declared slots were written to. -/
structure Sound (h : History) : Prop where
  contents : ∀ slot < h.store.size, h.store.contents? slot = some (.ofWrites (h.written slot))
  declared : ∀ w ∈ h.writes, w.slot < h.store.size

/-- All that a call can do: nothing, as when it fails, or a new name, or some writes, or a fresh
beginning. -/
inductive Becomes (h : History) : Call → History → Prop
  | same {c : Call} (hc : ∀ name, c = .declare name → name ∈ h.store.names) : Becomes h c h
  | declared {name : String} (hname : name ∉ h.store.names) :
      Becomes h (.declare name) { h with store := h.store.extended name }
  | wrote {c : Call} {t : Store} {ws : List Write} (hc : ∀ name, c ≠ .declare name)
      (hwrites : h.store.writeAll ws = .ok t) : Becomes h c ⟨t, h.writes ++ ws⟩
  | fresh : Becomes h .fresh ⟨h.store.fresh, []⟩

theorem becomes_call (h : History) (c : Call) : h.Becomes c (h.call c) := by
  cases c with
  | declare name =>
    by_cases hname : name ∈ h.store.names
    · simp only [call, declare_of_mem hname]
      exact .same fun _ heq => Call.declare.inj heq ▸ hname
    · simp only [call, declare_of_not_mem hname]
      exact .declared hname
  | resolve | read | clone => exact .same nofun
  | write slot v =>
    simp only [call]
    split
    · next t hwrite => exact .wrote nofun (writeAll_singleton hwrite)
    · exact .same nofun
  | fresh => exact .fresh
  | run settings depth p =>
    exact .wrote nofun (({ store := h.store, settings, depth } : Interpreter).writeAll_run p)
  | eval settings depth n =>
    exact .wrote nofun (({ store := h.store, settings, depth } : Interpreter).writeAll_eval n)

variable {h : History}

theorem written_concat (ws : List Write) (slot k : ℕ) (v : Value) (s t : Store) :
    (⟨t, ws ++ [⟨slot, v⟩]⟩ : History).written k =
      if slot = k then (⟨s, ws⟩ : History).written k ++ [v] else (⟨s, ws⟩ : History).written k := by
  by_cases hk : slot = k <;> simp [written, hk]

theorem Sound.written_eq_nil (hs : h.Sound) {slot : ℕ} (hslot : h.store.size ≤ slot) :
    h.written slot = [] := by
  rw [written, List.map_eq_nil_iff, List.filter_eq_nil_iff]
  intro w hw
  have := hs.declared w hw
  simp only [decide_eq_true_eq]
  omega

theorem Sound.start : Sound {} := ⟨fun slot hslot => absurd hslot (Nat.not_lt_zero _), by simp⟩

theorem Sound.extended (hs : h.Sound) (name : String) :
    Sound { h with store := h.store.extended name } := by
  refine ⟨fun slot hslot => ?_, fun w hw => ?_⟩
  · rw [size_extended] at hslot
    rw [contents?_extended]
    split_ifs with hnew
    · have : h.written slot = [] := hs.written_eq_nil (Nat.le_of_eq hnew.symm)
      rw [show written { h with store := h.store.extended name } slot = h.written slot from rfl,
        this, Contents.ofWrites_nil]
    · exact hs.contents slot (by omega)
  · rw [size_extended]
    exact Nat.lt_succ_of_lt (hs.declared w hw)

theorem Sound.write (hs : h.Sound) {t : Store} {slot : ℕ} {v : Value}
    (hwrite : h.store.write slot v = .ok t) : Sound ⟨t, h.writes ++ [⟨slot, v⟩]⟩ := by
  have hsize := size_of_write hwrite
  obtain ⟨c, hc⟩ := exists_contents?_of_write hwrite
  have hslot : slot < h.store.size := by
    by_contra hle
    rw [contents?_eq_none_iff.2 (Nat.not_lt.1 hle)] at hc
    cases hc
  refine ⟨fun k hk => ?_, fun w hw => ?_⟩
  · rw [hsize] at hk
    rw [contents?_of_write hwrite, written_concat h.writes slot k v h.store, hs.contents k hk]
    split_ifs
    · rw [Contents.ofWrites_concat]
      rfl
    · rfl
  · rw [hsize]
    rcases List.mem_append.1 hw with hold | hnew
    · exact hs.declared w hold
    · rw [List.mem_singleton.1 hnew]
      exact hslot

theorem Sound.writeAll (hs : h.Sound) {t : Store} {ws : List Write}
    (hwrites : h.store.writeAll ws = .ok t) : Sound ⟨t, h.writes ++ ws⟩ := by
  induction ws generalizing h with
  | nil =>
    cases hwrites
    rw [List.append_nil]
    exact hs
  | cons w ws ih =>
    obtain ⟨u, hw, hrest⟩ := writeAll_cons_eq_ok hwrites
    have := ih (hs.write hw) hrest
    rwa [List.append_assoc] at this

theorem Sound.fresh (hs : h.Sound) : Sound ⟨h.store.fresh, []⟩ := by
  refine ⟨fun slot hslot => ?_, by simp⟩
  rw [size_fresh] at hslot
  rw [contents?_fresh, hs.contents slot hslot]
  rfl

theorem Sound.becomes (hs : h.Sound) {c : Call} {h' : History} (hb : h.Becomes c h') :
    h'.Sound := by
  cases hb with
  | same => exact hs
  | declared => exact hs.extended _
  | wrote _ hwrites => exact hs.writeAll hwrites
  | fresh => exact hs.fresh

theorem Sound.foldl (hs : h.Sound) (calls : List Call) : (calls.foldl History.call h).Sound := by
  induction calls generalizing h with
  | nil => exact hs
  | cons c calls ih => exact ih (hs.becomes (h.becomes_call c))

theorem sound_after (calls : List Call) : (after calls).Sound := Sound.start.foldl calls

/-- One history goes on from another: there are no fewer slots, and the writes come first. -/
structure Extends (h h' : History) : Prop where
  size_le : h.store.size ≤ h'.store.size
  writes : h.writes <+: h'.writes

theorem Extends.refl (h : History) : h.Extends h := ⟨Nat.le_refl _, List.prefix_rfl⟩

theorem Extends.trans {h₁ h₂ h₃ : History} (h₁₂ : h₁.Extends h₂) (h₂₃ : h₂.Extends h₃) :
    h₁.Extends h₃ :=
  ⟨Nat.le_trans h₁₂.size_le h₂₃.size_le, h₁₂.writes.trans h₂₃.writes⟩

theorem Becomes.extends {c : Call} {h' : History} (hb : h.Becomes c h') (hc : c ≠ .fresh) :
    h.Extends h' := by
  cases hb with
  | same => exact .refl h
  | declared => exact ⟨by simp, List.prefix_rfl⟩
  | wrote _ hwrites =>
    refine ⟨Nat.le_of_eq ?_, List.prefix_append ..⟩
    rw [← length_names, ← names_of_writeAll hwrites, length_names]
  | fresh => exact absurd rfl hc

theorem extends_foldl {calls : List Call} (hfresh : .fresh ∉ calls) :
    h.Extends (calls.foldl call h) := by
  induction calls generalizing h with
  | nil => exact .refl h
  | cons c calls ih =>
    rw [List.mem_cons, not_or] at hfresh
    exact ((h.becomes_call c).extends (Ne.symm hfresh.1)).trans (ih hfresh.2)

theorem Extends.written {h h' : History} (hext : h.Extends h') (slot : ℕ) :
    ∃ vs, h'.written slot = h.written slot ++ vs := by
  obtain ⟨ws, hws⟩ := hext.writes
  exact ⟨(⟨h.store, ws⟩ : History).written slot, by simp [History.written, ← hws]⟩

theorem Sound.kind?_eq (hs : h.Sound) {slot : ℕ} (hslot : slot < h.store.size) :
    h.store.kind? slot = some (Contents.ofWrites (h.written slot)).kind := by
  rw [kind?, hs.contents slot hslot]
  rfl

/-- The kind of a slot is not lost, and it does not go back. -/
theorem Extends.kind?_grows {h h' : History} (hext : h.Extends h') (hs : h.Sound)
    (hs' : h'.Sound) {slot : ℕ} {k : Kind} (hk : h.store.kind? slot = some k) :
    ∃ k', h'.store.kind? slot = some k' ∧ k.rank ≤ k'.rank := by
  have hslot : slot < h.store.size := by
    by_contra hle
    rw [kind?, contents?_eq_none_iff.2 (Nat.not_lt.1 hle)] at hk
    cases hk
  obtain ⟨vs, hvs⟩ := hext.written slot
  rw [hs.kind?_eq hslot] at hk
  refine ⟨_, hs'.kind?_eq (Nat.lt_of_lt_of_le hslot hext.size_le), ?_⟩
  rw [← Option.some.inj hk, hvs]
  exact Contents.rank_kind_le_rank_kind_append _ vs

theorem Sound.read_eq (hs : h.Sound) (slot : ℕ) :
    h.store.read slot =
      match (h.written slot).getLast? with
      | some v =>
        .ok (if (h.written slot).all Value.isFast then v else .precise v.toDecimal)
      | none => .error (.uninitializedRead slot) := by
  rw [read]
  by_cases hslot : slot < h.store.size
  · rw [hs.contents slot hslot, Option.bind_some, Contents.value?_ofWrites]
    cases (h.written slot).getLast? <;> rfl
  · rw [contents?_eq_none_iff.2 (Nat.not_lt.1 hslot), hs.written_eq_nil (Nat.not_lt.1 hslot)]
    rfl

end History

/-- The values written to the slots of a store, the latest one last, say all that there is
to know about the contents of the slots. -/
structure Remembers (s : Store) (written : ℕ → List Value) : Prop where
  empty_iff : ∀ slot < s.size, s.kind? slot = some .empty ↔ written slot = []
  fast_iff : ∀ slot < s.size, s.kind? slot = some .fast ↔
    written slot ≠ [] ∧ ∀ v ∈ written slot, v.isFast = true
  precise_iff : ∀ slot < s.size, s.kind? slot = some .precise ↔
    ∃ v ∈ written slot, v.isFast = false
  /-- An integer that follows a decimal is read as a decimal of the same number. -/
  read_last : ∀ slot v, (written slot).getLast? = some v →
    s.read slot = .ok (if (written slot).all Value.isFast then v else .precise v.toDecimal)
  read_error_iff : ∀ slot e, s.read slot = .error e ↔
    e = .uninitializedRead slot ∧ (s.kind? slot = some .empty ∨ s.size ≤ slot)
  write_frame : ∀ slot < s.size, ∀ v, ∃ t, s.write slot v = .ok t ∧ t.names = s.names ∧
    t.size = s.size ∧ ∀ k ≠ slot, t.contents? k = s.contents? k

theorem History.Sound.remembers {h : History} (hs : h.Sound) : h.store.Remembers h.written where
  empty_iff slot hslot := by
    rw [hs.kind?_eq hslot, Option.some_inj, Contents.kind_ofWrites_eq_empty_iff]
  fast_iff slot hslot := by
    rw [hs.kind?_eq hslot, Option.some_inj, Contents.kind_ofWrites_eq_fast_iff]
  precise_iff slot hslot := by
    rw [hs.kind?_eq hslot, Option.some_inj, Contents.kind_ofWrites_eq_precise_iff]
  read_last slot v hv := by
    rw [hs.read_eq, hv]
  read_error_iff _ _ := read_eq_error_iff
  write_frame slot hslot v := by
    obtain ⟨t, ht⟩ := exists_write_of_lt hslot v
    refine ⟨t, ht, names_of_write ht, size_of_write ht, fun k hk => ?_⟩
    rw [contents?_of_write ht, if_neg (Ne.symm hk)]

end Store

/-- Whatever calls a store has gone through, in interpreters or outside, and however they
ended, its slots are what the values written to them say, and as long as the store is not
made fresh a slot goes from empty to integers to decimals and never back. -/
theorem store_keeps_last_written (calls : List Store.Call) :
    let h := Store.History.after calls
    h.store.Remembers h.written ∧
      ∀ more : List Store.Call, .fresh ∉ more → ∀ slot k, h.store.kind? slot = some k →
        ∃ k', (Store.History.after (calls ++ more)).store.kind? slot = some k' ∧
          k.rank ≤ k'.rank := by
  intro h
  have hs := Store.History.sound_after calls
  refine ⟨hs.remembers, fun more hfresh slot k hk => ?_⟩
  have hs' := Store.History.sound_after (calls ++ more)
  rw [Store.History.after_append] at hs' ⊢
  exact (Store.History.extends_foldl hfresh).kind?_grows hs hs' hk

/-- The run fails, but not before it has written a decimal, and the integer after it is
widened. -/
example : (Store.History.after [.declare "x",
      .run {} 0 ⟨[.assign 0 (.precise ⟨15, 1⟩)], .binary .div false (.fast 1) (.fast 0)⟩,
      .write 0 (.fast 4)]).store.read 0 = .ok (.precise ⟨4, 0⟩) := by
  decide +kernel

end AdaptiveCalc
