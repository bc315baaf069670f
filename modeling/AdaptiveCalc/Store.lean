import AdaptiveCalc.Value

/-!
# The variable store

Variables have names and live in slots, numbered in the order of declaration. The
contents of a slot are nothing, an integer, or a decimal, and they only ever go
that way: a slot that holds a decimal widens every integer written to it.
-/
namespace AdaptiveCalc

inductive Contents where
  | empty
  | fast (n : Int64)
  | precise (d : Decimal)
  deriving DecidableEq, Repr, Inhabited

namespace Contents

def value? : Contents → Option Value
  | empty => none
  | fast n => some (.fast n)
  | precise d => some (.precise d)

def ofValue : Value → Contents
  | .fast n => fast n
  | .precise d => precise d

def write (c : Contents) (v : Value) : Contents :=
  match c with
  | precise _ => precise v.toDecimal
  | _ => ofValue v

/-- Whether a write takes the slot from integers to decimals. An empty slot has
nothing to give up. -/
def demotedBy : Contents → Value → Bool
  | fast _, .precise _ => true
  | _, _ => false

@[simp] theorem value?_ofValue (v : Value) : (ofValue v).value? = some v := by cases v <;> rfl

end Contents

structure Variable where
  name : String
  contents : Contents := .empty
  deriving DecidableEq, Repr, Inhabited

/-- The variables in a table, each at the index that is its slot. -/
structure Store where
  table : Array Variable := #[]
  deriving DecidableEq, Repr, Inhabited

namespace Store

def size (s : Store) : Nat := s.table.size

def slot? (s : Store) (name : String) : Option Nat :=
  s.table.findIdx? (·.name == name)

def contents? (s : Store) (slot : Nat) : Option Contents :=
  s.table[slot]?.map Variable.contents

def names (s : Store) : List String := s.table.toList.map Variable.name

def declare (s : Store) (name : String) : Except BuildError (Nat × Store) :=
  match s.slot? name with
  | some _ => .error (.duplicateDeclaration name)
  | none => .ok (s.size, ⟨s.table.push { name }⟩)

def resolve (s : Store) (name : String) : Except BuildError Nat :=
  match s.slot? name with
  | some slot => .ok slot
  | none => .error (.unknownVariable name)

def read (s : Store) (slot : Nat) : Except EvalError Value :=
  match (s.contents? slot).bind Contents.value? with
  | some v => .ok v
  | none => .error (.uninitializedRead slot)

/-- Only declared slots can be written. -/
def write (s : Store) (slot : Nat) (v : Value) : Except EvalError Store :=
  if slot < s.size then
    .ok ⟨s.table.modify slot fun x => { x with contents := x.contents.write v }⟩
  else .error (.undeclaredWrite slot)

def demotedBy (s : Store) (slot : Nat) (v : Value) : Bool :=
  (s.contents? slot).any (·.demotedBy v)

/-- The same names in the same slots, and nothing in them. -/
def fresh (s : Store) : Store := ⟨s.table.map fun x => { name := x.name }⟩

@[simp] theorem size_fresh (s : Store) : s.fresh.size = s.size := by simp [fresh, size]

theorem size_of_write {s t : Store} {slot : Nat} {v : Value} (h : s.write slot v = .ok t) :
    t.size = s.size := by
  unfold write at h
  split at h
  · cases h; simp [size]
  · cases h

theorem names_of_write {s t : Store} {slot : Nat} {v : Value} (h : s.write slot v = .ok t) :
    t.names = s.names := by
  unfold write at h
  split at h
  · cases h
    apply List.ext_getElem?
    intro i
    simp only [names, List.getElem?_map, Array.getElem?_toList, Array.getElem?_modify]
    split <;> simp [Function.comp_def]
  · cases h

theorem contents?_eq_none_iff {s : Store} {slot : Nat} :
    s.contents? slot = none ↔ s.size ≤ slot := by
  simp [contents?, size]

theorem exists_contents?_of_write {s t : Store} {slot : Nat} {v : Value}
    (h : s.write slot v = .ok t) : ∃ c, s.contents? slot = some c := by
  unfold write at h
  split at h
  · next hslot =>
    refine Option.ne_none_iff_exists'.1 fun hnone => ?_
    have := contents?_eq_none_iff.1 hnone
    omega
  · cases h

theorem write_eq_error {s : Store} {slot : Nat} {v : Value} {e : EvalError}
    (h : s.write slot v = .error e) : e = .undeclaredWrite slot ∧ s.contents? slot = none := by
  unfold write at h
  split at h
  · cases h
  · next hslot =>
    cases h
    exact ⟨rfl, contents?_eq_none_iff.2 (Nat.not_lt.1 hslot)⟩

theorem contents?_of_write {s t : Store} {slot : Nat} {v : Value}
    (h : s.write slot v = .ok t) (i : Nat) :
    t.contents? i = if slot = i then (s.contents? i).map (·.write v) else s.contents? i := by
  unfold write at h
  split at h
  · cases h
    simp only [contents?, Array.getElem?_modify]
    split <;> simp [Function.comp_def]
  · cases h

end Store
end AdaptiveCalc
