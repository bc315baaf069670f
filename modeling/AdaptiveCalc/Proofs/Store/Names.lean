import AdaptiveCalc.Proofs.Builder.Calls
import AdaptiveCalc.Proofs.Store.History

/-!
# The table of names

Names get their slots in the order in which they are declared for the first time, and
keep them: whatever else is done to a store or asked of a builder, and whichever calls
fail, the names are those that were declared, each once. Main statement:
`names_follow_declarations`.
-/
namespace AdaptiveCalc

theorem eraseDups_concat (names : List String) (name : String) :
    (names ++ [name]).eraseDups =
      if name ∈ names then names.eraseDups else names.eraseDups ++ [name] := by
  rw [List.eraseDups_append]
  split_ifs with h <;> simp [List.removeAll, h, List.eraseDups_cons]

/-- The names after one more has been declared, or none. -/
def withName (names : List String) : Option String → List String
  | some name => if name ∈ names then names else names ++ [name]
  | none => names

/-- The names after calls that declare at most what they say, from the first call on. -/
theorem names_foldl {σ κ : Type} (names : σ → List String) {step : σ → κ → σ}
    {declares? : κ → Option String}
    (hstep : ∀ s c, names (step s c) = withName (names s) (declares? c)) {s : σ}
    (hs : names s = []) (calls : List κ) :
    names (calls.foldl step s) = (calls.filterMap declares?).eraseDups := by
  induction calls using List.reverseRecOn with
  | nil => exact hs
  | append_singleton calls c ih =>
    rw [List.foldl_append, List.foldl_cons, List.foldl_nil, hstep, ih, List.filterMap_append]
    cases hc : declares? c with
    | none => simp [hc, withName]
    | some name => simp [hc, withName, eraseDups_concat]

theorem nodup_eraseDups (names : List String) : names.eraseDups.Nodup := by
  induction names using List.reverseRecOn with
  | nil => exact List.nodup_nil
  | append_singleton names name ih =>
    rw [eraseDups_concat]
    split_ifs with h
    · exact ih
    · rw [← List.concat_eq_append]
      exact ih.concat (mt List.mem_eraseDups.1 h)

/-- However names are listed with their places, sorted by places they are in order. -/
theorem mergeSort_eq_zipIdx {names : List String} {pairs : List (String × ℕ)}
    (hpairs : pairs.Nodup)
    (hmem : ∀ name slot, (name, slot) ∈ pairs ↔ names[slot]? = some name) :
    pairs.mergeSort (fun x y => x.2 ≤ y.2) = names.zipIdx := by
  have hslots : (names.zipIdx.map Prod.snd).Pairwise (· < ·) := by
    rw [List.zipIdx_map_snd]
    exact List.pairwise_lt_range' _
  have hlt : names.zipIdx.Pairwise fun x y => x.2 < y.2 := List.pairwise_map.1 hslots
  have hperm : (pairs.mergeSort fun x y => x.2 ≤ y.2).Perm names.zipIdx := by
    refine (List.mergeSort_perm ..).trans ((List.perm_ext_iff_of_nodup hpairs ?_).2 ?_)
    · exact hlt.imp fun h heq => Nat.ne_of_lt h (congrArg Prod.snd heq)
    · rintro ⟨name, slot⟩
      rw [hmem, List.mem_zipIdx_iff_getElem?]
  have hsorted : (pairs.mergeSort fun x y => x.2 ≤ y.2).Pairwise fun x y => x.2 ≤ y.2 := by
    refine (List.pairwise_mergeSort ?_ ?_ pairs).imp of_decide_eq_true
    · intro x y z hxy hyz
      exact decide_eq_true (Nat.le_trans (of_decide_eq_true hxy) (of_decide_eq_true hyz))
    · intro x y
      simpa using Nat.le_total x.2 y.2
  refine hperm.eq_of_pairwise ?_ hsorted (hlt.imp Nat.le_of_lt)
  rintro ⟨name, slot⟩ ⟨name', slot'⟩ hx hy hle hge
  obtain rfl : slot = slot' := Nat.le_antisymm hle hge
  have hname := List.mem_zipIdx_iff_getElem?.1 (hperm.mem_iff.1 hx)
  rw [List.mem_zipIdx_iff_getElem?.1 hy] at hname
  cases hname
  rfl

namespace Store

/-- The laws of a store whose variables have been declared in the order of `declared`. -/
structure NameTable (s : Store) (declared : List String) : Prop where
  nodup : declared.Nodup
  names_eq : s.names = declared
  size_eq : s.size = declared.length
  resolve_ok_iff : ∀ name slot, s.resolve name = .ok slot ↔ declared[slot]? = some name
  resolve_error_iff : ∀ name e,
    s.resolve name = .error e ↔ e = .unknownVariable name ∧ name ∉ declared
  sorted_eq : ∀ pairs : List (String × ℕ), pairs.Nodup →
    (∀ name slot, (name, slot) ∈ pairs ↔ s.resolve name = .ok slot) →
    pairs.mergeSort (fun x y => x.2 ≤ y.2) = s.names.zipIdx
  declare_error_iff : ∀ name e,
    s.declare name = .error e ↔ e = .duplicateDeclaration name ∧ name ∈ declared
  declare_failed : ∀ name ∈ declared, ∀ ws,
    (⟨s, ws⟩ : History).call (.declare name) = ⟨s, ws⟩
  declare_new : ∀ name ∉ declared, ∃ t, s.declare name = .ok (s.size, t) ∧
    t.names = s.names ++ [name] ∧ t.contents? s.size = some .empty ∧
    ∀ slot ≠ s.size, t.contents? slot = s.contents? slot
  fresh_resolve : ∀ name, s.fresh.resolve name = s.resolve name
  fresh_names : s.fresh.names = s.names
  fresh_contents : ∀ slot < s.size, s.fresh.contents? slot = some .empty

theorem nameTable {s : Store} (hnodup : s.names.Nodup) : s.NameTable s.names where
  nodup := hnodup
  names_eq := rfl
  size_eq := s.length_names.symm
  resolve_ok_iff _ _ := resolve_eq_ok_iff hnodup
  resolve_error_iff _ _ := resolve_eq_error_iff
  sorted_eq _ hpairs hmem := mergeSort_eq_zipIdx hpairs fun name slot =>
    (hmem name slot).trans (resolve_eq_ok_iff hnodup)
  declare_error_iff name e := by
    by_cases hname : name ∈ s.names
    · simp [declare_of_mem hname, hname, eq_comm]
    · simp [declare_of_not_mem hname, hname]
  declare_failed name hname ws := by simp only [History.call, declare_of_mem hname]
  declare_new name hname := by
    refine ⟨s.extended name, declare_of_not_mem hname, names_extended, ?_, fun slot hslot => ?_⟩
    · rw [contents?_extended, if_pos rfl]
    · rw [contents?_extended, if_neg hslot]
  fresh_resolve name := resolve_congr s.names_fresh name
  fresh_names := s.names_fresh
  fresh_contents slot hslot := by
    rw [contents?_fresh]
    cases hc : s.contents? slot with
    | none => exact absurd (contents?_eq_none_iff.1 hc) (Nat.not_le.2 hslot)
    | some c => rfl

def Call.declares? : Call → Option String
  | .declare name => some name
  | _ => none

namespace History

theorem Becomes.names {h h' : History} {c : Call} (hb : h.Becomes c h') :
    h'.store.names = withName h.store.names c.declares? := by
  cases hb with
  | same hc =>
    cases c with
    | declare name => rw [Call.declares?, withName, if_pos (hc name rfl)]
    | _ => rfl
  | declared hname => rw [names_extended, Call.declares?, withName, if_neg hname]
  | wrote hc hwrites =>
    rw [names_of_writeAll hwrites]
    cases c with
    | declare name => exact absurd rfl (hc name)
    | _ => rfl
  | fresh => exact h.store.names_fresh

theorem names_after (calls : List Call) :
    (after calls).store.names = (calls.filterMap Call.declares?).eraseDups :=
  names_foldl (fun h : History => h.store.names) (fun h c => (h.becomes_call c).names) rfl calls

end History
end Store

namespace Builder

theorem names_call (b : Builder) (c : Call) :
    (b.call c).store.names = withName b.store.names c.declares? := by
  cases c with
  | declare name init =>
    simp only [call, answer, Builder.declare, Call.declares?, withName]
    split_ifs with hname
    · rw [Store.declare_of_mem hname]
    · rw [Store.declare_of_not_mem hname]
      exact Store.names_extended
  | number | fast | precise | assign | read | binary | negate =>
    rw [call_eq_self rfl]
    rfl

theorem names_after (calls : List Call) :
    (after calls).store.names = (calls.filterMap Call.declares?).eraseDups :=
  names_foldl (fun b : Builder => b.store.names) names_call rfl calls

end Builder

/-- After any calls on a store, and after any calls on a builder, the variables are those
that the calls have tried to declare, each in the place of the first time, and they are
found, refused and copied as the laws of a table of names say. -/
theorem names_follow_declarations :
    (∀ calls : List Store.Call, (Store.History.after calls).store.NameTable
      (calls.filterMap Store.Call.declares?).eraseDups) ∧
    ∀ calls : List Builder.Call, (Builder.after calls).store.NameTable
      (calls.filterMap Builder.Call.declares?).eraseDups := by
  constructor
  · intro calls
    rw [← Store.History.names_after]
    exact Store.nameTable (Store.History.names_after calls ▸ nodup_eraseDups _)
  · intro calls
    rw [← Builder.names_after]
    exact Store.nameTable (Builder.names_after calls ▸ nodup_eraseDups _)

end AdaptiveCalc
