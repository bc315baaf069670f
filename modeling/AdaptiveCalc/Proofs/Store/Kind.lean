import AdaptiveCalc.Store
import Mathlib.Data.List.Induction
import Mathlib.Data.Nat.Notation

/-!
# The kind of a slot

A slot is empty, or it holds an integer, or it holds a decimal. What it holds after some
writes is their last value, as an integer only if all the values were integers; with
every write the kind stays or grows. Main statements: `Contents.value?_ofWrites` and
`Contents.rank_kind_le_rank_kind_append`.
-/
namespace AdaptiveCalc

inductive Kind where
  | empty
  | fast
  | precise
  deriving DecidableEq, Repr

/-- Kinds in the order in which a slot goes through them. -/
def Kind.rank : Kind → ℕ
  | empty => 0
  | fast => 1
  | precise => 2

def Contents.kind : Contents → Kind
  | empty => .empty
  | fast _ => .fast
  | precise _ => .precise

def Store.kind? (s : Store) (slot : ℕ) : Option Kind := (s.contents? slot).map Contents.kind

theorem Store.read_eq_error_iff {s : Store} {slot : ℕ} {e : EvalError} :
    s.read slot = .error e ↔
      e = .uninitializedRead slot ∧ (s.kind? slot = some .empty ∨ s.size ≤ slot) := by
  rw [← contents?_eq_none_iff, read, kind?]
  cases s.contents? slot with
  | none => simp [eq_comm]
  | some c => cases c <;> simp [Contents.value?, Contents.kind, eq_comm]

namespace Contents

/-- A slot that has been written holds a decimal if it did before or if one is written. -/
theorem kind_write (c : Contents) (v : Value) :
    (c.write v).kind = if c.kind = .precise ∨ v.isFast = false then .precise else .fast := by
  cases c <;> cases v <;> rfl

theorem value?_write (c : Contents) (v : Value) :
    (c.write v).value? = some (if c.kind = .precise then .precise v.toDecimal else v) := by
  cases c <;> cases v <;> rfl

theorem rank_kind_le_rank_kind_write (c : Contents) (v : Value) :
    c.kind.rank ≤ (c.write v).kind.rank := by
  cases c <;> cases v <;> simp [write, kind, ofValue, Kind.rank]

/-- What a slot holds after some writes, the first of them to an empty slot. -/
def ofWrites (vs : List Value) : Contents := vs.foldl write .empty

@[simp] theorem ofWrites_nil : ofWrites [] = .empty := rfl

@[simp] theorem ofWrites_concat (vs : List Value) (v : Value) :
    ofWrites (vs ++ [v]) = (ofWrites vs).write v := by
  simp [ofWrites]

theorem kind_ofWrites_eq_empty_iff (vs : List Value) : (ofWrites vs).kind = .empty ↔ vs = [] := by
  induction vs using List.reverseRecOn with
  | nil => simp [kind]
  | append_singleton vs v =>
    rw [ofWrites_concat, kind_write]
    split <;> simp

theorem kind_ofWrites_eq_precise_iff (vs : List Value) :
    (ofWrites vs).kind = .precise ↔ ∃ v ∈ vs, v.isFast = false := by
  induction vs using List.reverseRecOn with
  | nil => simp [kind]
  | append_singleton vs v ih =>
    simp only [ofWrites_concat, kind_write, ih, ite_eq_left_iff, reduceCtorEq, imp_false, not_not,
      List.mem_append, List.mem_singleton, or_and_right, exists_or, exists_eq_left]

theorem kind_ofWrites_eq_fast_iff (vs : List Value) :
    (ofWrites vs).kind = .fast ↔ vs ≠ [] ∧ ∀ v ∈ vs, v.isFast = true := by
  rw [← not_iff_not, not_and_or, not_not, ← kind_ofWrites_eq_empty_iff, not_forall]
  simp only [Classical.not_imp, Bool.not_eq_true, ← kind_ofWrites_eq_precise_iff]
  cases (ofWrites vs).kind <;> simp

/-- The last value is what a slot holds, widened if any of the values was a decimal. -/
theorem value?_ofWrites (vs : List Value) :
    (ofWrites vs).value? =
      vs.getLast?.map fun v => if vs.all Value.isFast then v else .precise v.toDecimal := by
  induction vs using List.reverseRecOn with
  | nil => rfl
  | append_singleton vs v =>
    rw [ofWrites_concat, value?_write, List.getLast?_concat, Option.map_some]
    by_cases hvs : ∃ w ∈ vs, w.isFast = false
    · have hall : (vs ++ [v]).all Value.isFast = false := by
        obtain ⟨w, hw, hprecise⟩ := hvs
        exact List.all_eq_false.2 ⟨w, List.mem_append_left _ hw, by simp [hprecise]⟩
      rw [if_pos ((kind_ofWrites_eq_precise_iff vs).2 hvs), hall]
      rfl
    · rw [if_neg (mt (kind_ofWrites_eq_precise_iff vs).1 hvs)]
      cases v with
      | fast n =>
        have hall : (vs ++ [Value.fast n]).all Value.isFast = true := by simpa using hvs
        rw [hall]
        rfl
      | precise d => simp

theorem rank_kind_le_rank_kind_append (vs ws : List Value) :
    (ofWrites vs).kind.rank ≤ (ofWrites (vs ++ ws)).kind.rank := by
  induction ws using List.reverseRecOn with
  | nil => simp
  | append_singleton ws w ih =>
    rw [← List.append_assoc, ofWrites_concat]
    exact Nat.le_trans ih (rank_kind_le_rank_kind_write _ w)

end Contents
end AdaptiveCalc
