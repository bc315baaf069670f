import AdaptiveCalc.Store
import Mathlib.Data.List.Nodup
import Mathlib.Data.Nat.Notation
import Mathlib.Tactic.SplitIfs

/-!
# The table of variables

What each operation on a store does to the names and to the contents of the slots, and
what it answers. A name is found at its place in the list of names.
-/
namespace AdaptiveCalc
namespace Store
variable {s t : Store} {name : String} {slot : ℕ}

@[simp] theorem length_names (s : Store) : s.names.length = s.size := by simp [names, size]

theorem slot?_eq_idxOf? (s : Store) (name : String) : s.slot? name = s.names.idxOf? name := by
  obtain ⟨⟨table⟩⟩ := s
  simp [slot?, names, List.idxOf?, List.findIdx?_map, Function.comp_def]

theorem slot?_eq_none_iff : s.slot? name = none ↔ name ∉ s.names := by
  rw [slot?_eq_idxOf?, List.idxOf?_eq_none_iff]

theorem slot?_eq_some_iff (h : s.names.Nodup) :
    s.slot? name = some slot ↔ s.names[slot]? = some name := by
  rw [slot?_eq_idxOf?, List.idxOf?_eq_some_iff, List.getElem?_eq_some_iff]
  constructor
  · rintro ⟨hlt, hname, -⟩
    exact ⟨hlt, hname⟩
  · rintro ⟨hlt, hname⟩
    refine ⟨hlt, hname, fun j hj hsame => ?_⟩
    have := (List.Nodup.getElem_inj_iff h).1 (hsame.trans hname.symm)
    omega

theorem slot?_lt (h : s.slot? name = some slot) : slot < s.size := by
  rw [slot?_eq_idxOf?, List.idxOf?_eq_some_iff] at h
  obtain ⟨hlt, -⟩ := h
  rwa [length_names] at hlt

/-- The store with one more variable, which is empty. -/
def extended (s : Store) (name : String) : Store := ⟨s.table.push { name }⟩

@[simp] theorem size_extended : (s.extended name).size = s.size + 1 := by simp [extended, size]

@[simp] theorem names_extended : (s.extended name).names = s.names ++ [name] := by
  simp [extended, names]

theorem contents?_extended (slot : ℕ) :
    (s.extended name).contents? slot = if slot = s.size then some .empty else s.contents? slot := by
  rw [extended, contents?, Array.getElem?_push, ← size]
  split_ifs <;> rfl

theorem declare_of_mem (h : name ∈ s.names) :
    s.declare name = .error (.duplicateDeclaration name) := by
  unfold declare
  cases hslot : s.slot? name with
  | some slot => rfl
  | none => exact absurd h (slot?_eq_none_iff.1 hslot)

theorem declare_of_not_mem (h : name ∉ s.names) :
    s.declare name = .ok (s.size, s.extended name) := by
  simp [declare, slot?_eq_none_iff.2 h, extended]

theorem resolve_eq_ok_iff (h : s.names.Nodup) :
    s.resolve name = .ok slot ↔ s.names[slot]? = some name := by
  rw [← slot?_eq_some_iff h, resolve]
  cases s.slot? name <;> simp

theorem resolve_eq_error_iff {e : BuildError} :
    s.resolve name = .error e ↔ e = .unknownVariable name ∧ name ∉ s.names := by
  rw [← slot?_eq_none_iff, resolve]
  cases s.slot? name <;> simp [eq_comm]

theorem lt_of_resolve (h : s.resolve name = .ok slot) : slot < s.size := by
  unfold resolve at h
  split at h
  · next k hk =>
    cases h
    exact slot?_lt hk
  · cases h

@[simp] theorem names_fresh (s : Store) : s.fresh.names = s.names := by
  simp [fresh, names, Function.comp_def]

theorem contents?_fresh (s : Store) (slot : ℕ) :
    s.fresh.contents? slot = (s.contents? slot).map fun _ => .empty := by
  simp [fresh, contents?, Function.comp_def]

theorem resolve_congr (h : s.names = t.names) (name : String) :
    s.resolve name = t.resolve name := by
  rw [resolve, resolve, slot?_eq_idxOf?, slot?_eq_idxOf?, h]

theorem eq_of_names_eq (hnames : s.names = t.names)
    (hcontents : ∀ slot, s.contents? slot = t.contents? slot) : s = t := by
  have htable : s.table = t.table := by
    refine Array.ext_getElem? fun slot => ?_
    have hname : s.table[slot]?.map Variable.name = t.table[slot]?.map Variable.name := by
      simpa [names] using congrArg (·[slot]?) hnames
    have hslot := hcontents slot
    rw [contents?, contents?] at hslot
    cases hx : s.table[slot]? with
    | none =>
      rw [hx] at hname
      exact (Option.map_eq_none_iff.1 hname.symm).symm
    | some x =>
      rw [hx] at hname hslot
      obtain ⟨y, hy, hyname⟩ := Option.map_eq_some_iff.1 hname.symm
      rw [hy, Option.map_some, Option.map_some] at hslot
      rw [hy]
      exact congrArg some (congrArg₂ Variable.mk hyname.symm (Option.some.inj hslot))
  exact congrArg Store.mk htable

theorem exists_write_of_lt (h : slot < s.size) (v : Value) : ∃ t, s.write slot v = .ok t := by
  simp [write, h]

end Store
end AdaptiveCalc
