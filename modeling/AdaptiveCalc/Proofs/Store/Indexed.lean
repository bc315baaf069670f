import AdaptiveCalc.Proofs.Store.Names

/-!
# The store in two parts

A store may keep a map from names to slots beside an array of contents. Nothing ties the two
together but that names and slots correspond one to one, which every operation must keep, and
the names are in no order until they are sorted by their slots. A store in two parts stands
for the table of its variables, and each operation on it does what it does to the table. Main
statement: `indexed_refines_table`.
-/
namespace AdaptiveCalc
namespace Store

/-- Each name in the map leads to a slot below `size`, and each of these belongs to one name. -/
structure Numbering (index : Std.HashMap String ℕ) (size : ℕ) : Prop where
  lt_size : ∀ (name : String) (slot : ℕ), index[name]? = some slot → slot < size
  injective : ∀ (name name' : String) (slot : ℕ),
    index[name]? = some slot → index[name']? = some slot → name = name'
  surjective : ∀ slot < size, ∃ name : String, index[name]? = some slot

namespace Numbering
variable {index : Std.HashMap String ℕ} {size : ℕ}

theorem empty : Numbering ∅ 0 := by
  constructor <;> simp

theorem getElem?_insert_eq_some_iff {name name' : String} {slot : ℕ} (hname : name ∉ index) :
    (index.insert name size)[name']? = some slot ↔
      (name' = name ∧ slot = size) ∨ index[name']? = some slot := by
  rw [Std.HashMap.getElem?_insert]
  by_cases heq : name = name'
  · subst heq
    simp [Std.HashMap.getElem?_eq_none hname, eq_comm]
  · simp [heq, Ne.symm heq]

theorem insert (h : Numbering index size) {name : String} (hname : name ∉ index) :
    Numbering (index.insert name size) (size + 1) where
  lt_size name' slot hslot := by
    rcases (getElem?_insert_eq_some_iff hname).1 hslot with ⟨-, rfl⟩ | hold
    · exact Nat.lt_succ_self _
    · exact Nat.lt_succ_of_lt (h.lt_size _ _ hold)
  injective name₁ name₂ slot h₁ h₂ := by
    rcases (getElem?_insert_eq_some_iff hname).1 h₁ with ⟨rfl, rfl⟩ | hold₁ <;>
      rcases (getElem?_insert_eq_some_iff hname).1 h₂ with ⟨rfl, hnew⟩ | hold₂
    · rfl
    · exact absurd (h.lt_size _ _ hold₂) (Nat.lt_irrefl _)
    · exact absurd (h.lt_size _ _ (hnew ▸ hold₁)) (Nat.lt_irrefl _)
    · exact h.injective _ _ _ hold₁ hold₂
  surjective slot hslot := by
    rcases Nat.lt_succ_iff_lt_or_eq.1 hslot with hold | rfl
    · obtain ⟨name', hname'⟩ := h.surjective slot hold
      exact ⟨name', (getElem?_insert_eq_some_iff hname).2 (.inr hname')⟩
    · exact ⟨name, (getElem?_insert_eq_some_iff hname).2 (.inl ⟨rfl, rfl⟩)⟩

theorem exists_names (h : Numbering index size) : ∃ names : List String, names.length = size ∧
    ∀ (name : String) (slot : ℕ), names[slot]? = some name ↔ index[name]? = some slot := by
  choose name hname using fun slot : Fin size => h.surjective slot slot.2
  refine ⟨List.ofFn name, List.length_ofFn, fun name' slot => ?_⟩
  rw [List.getElem?_eq_some_iff]
  simp only [List.length_ofFn, List.getElem_ofFn]
  constructor
  · rintro ⟨hlt, rfl⟩
    exact hname ⟨slot, hlt⟩
  · intro hslot
    have hlt := h.lt_size _ _ hslot
    exact ⟨hlt, h.injective _ _ _ (hname ⟨slot, hlt⟩) hslot⟩

theorem nodup_toList (index : Std.HashMap String ℕ) : index.toList.Nodup :=
  Std.HashMap.distinct_keys_toList.imp fun h heq => by simp [heq] at h

end Numbering

/-- A store whose map and array fit together. -/
structure Indexed where
  index : Std.HashMap String ℕ
  slots : Array Contents
  numbering : Numbering index slots.size

namespace Indexed

def new : Indexed := ⟨∅, #[], .empty⟩

def declare (x : Indexed) (name : String) : Except BuildError (ℕ × Indexed) :=
  if h : name ∈ x.index then .error (.duplicateDeclaration name)
  else
    .ok (x.slots.size, {
      index := x.index.insert name x.slots.size
      slots := x.slots.push .empty
      numbering := by simpa using x.numbering.insert h })

def resolve (x : Indexed) (name : String) : Except BuildError ℕ :=
  match x.index[name]? with
  | some slot => .ok slot
  | none => .error (.unknownVariable name)

def read (x : Indexed) (slot : ℕ) : Except EvalError Value :=
  match x.slots[slot]?.bind Contents.value? with
  | some v => .ok v
  | none => .error (.uninitializedRead slot)

def write (x : Indexed) (slot : ℕ) (v : Value) : Except EvalError Indexed :=
  if slot < x.slots.size then
    .ok { x with
      slots := x.slots.modify slot (·.write v)
      numbering := by simpa using x.numbering }
  else .error (.undeclaredWrite slot)

def fresh (x : Indexed) : Indexed :=
  { x with
    slots := Array.replicate x.slots.size .empty
    numbering := by simpa using x.numbering }

/-- The names with their slots. The map lists them in no order. -/
def names (x : Indexed) : List (String × ℕ) := x.index.toList.mergeSort fun y z => y.2 ≤ z.2

def table (x : Indexed) : Store :=
  ⟨(x.names.map fun y => ⟨y.1, x.slots[y.2]?.getD .empty⟩).toArray⟩

variable {x : Indexed} {name : String} {slot : ℕ}

theorem exists_names_eq_zipIdx (x : Indexed) : ∃ names : List String, x.names = names.zipIdx ∧
    names.length = x.slots.size ∧
    ∀ (name : String) (slot : ℕ), names[slot]? = some name ↔ x.index[name]? = some slot := by
  obtain ⟨names, hlength, hnames⟩ := x.numbering.exists_names
  refine ⟨names, mergeSort_eq_zipIdx (Numbering.nodup_toList x.index) fun name slot => ?_,
    hlength, hnames⟩
  rw [Std.HashMap.mem_toList_iff_getElem?_eq_some, hnames]

theorem names_table (x : Indexed) : x.table.names = x.names.map Prod.fst := by
  simp [table, Store.names, Function.comp_def]

/-- Sorting gives the names of the table, numbered. -/
theorem names_eq (x : Indexed) : x.names = x.table.names.zipIdx := by
  obtain ⟨names, hsorted, -⟩ := x.exists_names_eq_zipIdx
  rw [names_table, hsorted, List.zipIdx_map_fst]

theorem getElem?_names_table : x.table.names[slot]? = some name ↔ x.index[name]? = some slot := by
  obtain ⟨names, hsorted, -, hnames⟩ := x.exists_names_eq_zipIdx
  rw [names_table, hsorted, List.zipIdx_map_fst, hnames]

@[simp] theorem size_table (x : Indexed) : x.table.size = x.slots.size := by
  obtain ⟨names, hsorted, hlength, -⟩ := x.exists_names_eq_zipIdx
  rw [← length_names, names_table, hsorted, List.zipIdx_map_fst, hlength]

theorem contents?_table (x : Indexed) (slot : ℕ) : x.table.contents? slot = x.slots[slot]? := by
  obtain ⟨names, hsorted, hlength, -⟩ := x.exists_names_eq_zipIdx
  by_cases hslot : slot < x.slots.size
  · simp [table, contents?, hsorted, hslot, hlength]
  · rw [contents?_eq_none_iff.2 (by simpa using hslot), Array.getElem?_eq_none (by omega)]

/-- The table of a store in two parts is known by its names and its contents. -/
theorem table_eq {s : Store}
    (hnames : ∀ (name : String) (slot : ℕ),
      x.index[name]? = some slot ↔ s.names[slot]? = some name)
    (hcontents : ∀ slot : ℕ, x.slots[slot]? = s.contents? slot) : x.table = s := by
  refine eq_of_names_eq (List.ext_getElem? fun slot => Option.ext fun name => ?_) fun slot => ?_
  · rw [getElem?_names_table, hnames]
  · rw [contents?_table, hcontents]

theorem nodup_names_table (x : Indexed) : x.table.names.Nodup := by
  rw [List.nodup_iff_getElem?_ne_getElem?]
  intro i j hij hj heq
  have hname := List.getElem?_eq_getElem hj
  have hi := getElem?_names_table.1 (heq.trans hname)
  rw [getElem?_names_table.1 hname, Option.some_inj] at hi
  omega

theorem mem_names_table : name ∈ x.table.names ↔ name ∈ x.index := by
  simp only [List.mem_iff_getElem?, getElem?_names_table, Std.HashMap.mem_iff_isSome_getElem?,
    Option.isSome_iff_exists]

theorem resolve_eq (x : Indexed) (name : String) : x.resolve name = x.table.resolve name := by
  have hslot : x.table.slot? name = x.index[name]? := by
    refine Option.ext fun slot => ?_
    rw [slot?_eq_some_iff x.nodup_names_table, getElem?_names_table]
  cases hindex : x.index[name]? <;> simp [resolve, Store.resolve, hslot, hindex]

theorem read_eq (x : Indexed) (slot : ℕ) : x.read slot = x.table.read slot := by
  cases hvalue : x.slots[slot]?.bind Contents.value? <;>
    simp [read, Store.read, contents?_table, hvalue]

theorem declare_eq (x : Indexed) (name : String) :
    (x.declare name).map (Prod.map id table) = x.table.declare name := by
  unfold declare
  split_ifs with hname
  · rw [declare_of_mem (mem_names_table.2 hname)]
    rfl
  · rw [declare_of_not_mem (mt mem_names_table.1 hname), size_table]
    refine congrArg (fun t => Except.ok (x.slots.size, t))
      (table_eq (fun name' slot => ?_) fun slot => ?_)
    · have hlength : x.table.names.length = x.slots.size := by simp
      rw [Numbering.getElem?_insert_eq_some_iff hname, names_extended, ← getElem?_names_table]
      grind
    · rw [contents?_extended, contents?_table, size_table, Array.getElem?_push]

theorem write_eq (x : Indexed) (slot : ℕ) (v : Value) :
    (x.write slot v).map table = x.table.write slot v := by
  unfold write
  split_ifs with hslot
  · obtain ⟨t, ht⟩ := exists_write_of_lt (s := x.table) (by rwa [size_table]) v
    rw [ht]
    refine congrArg Except.ok (table_eq (fun name k => ?_) fun k => ?_)
    · rw [names_of_write ht, getElem?_names_table]
    · rw [contents?_of_write ht, contents?_table, Array.getElem?_modify]
  · rw [Store.write, if_neg (by rwa [size_table])]
    rfl

theorem table_fresh (x : Indexed) : x.fresh.table = x.table.fresh := by
  refine table_eq (fun name slot => ?_) fun slot => ?_
  · rw [names_fresh, getElem?_names_table]
    rfl
  · rw [contents?_fresh, contents?_table, fresh, Array.getElem?_replicate]
    split_ifs with hslot
    · rw [Array.getElem?_eq_getElem hslot, Option.map_some]
    · rw [Array.getElem?_eq_none (Nat.not_lt.1 hslot), Option.map_none]

def writeAll (x : Indexed) : List Write → Except EvalError Indexed
  | [] => .ok x
  | w :: ws =>
    match x.write w.slot w.value with
    | .ok y => y.writeAll ws
    | .error e => .error e

theorem writeAll_eq (x : Indexed) (ws : List Write) :
    (x.writeAll ws).map table = x.table.writeAll ws := by
  induction ws generalizing x with
  | nil => rfl
  | cons w ws ih =>
    rw [writeAll, Store.writeAll, ← x.write_eq w.slot w.value]
    cases x.write w.slot w.value with
    | ok y => exact ih y
    | error e => rfl

def evaluated {α : Type} (x : Indexed) (e : Evaluation α) : Indexed :=
  match x.writeAll (Event.writes e.events) with
  | .ok y => y
  | .error _ => x

/-- An interpreter reads its store as the table, and writes to the store. -/
def call (x : Indexed) : Call → Indexed
  | .declare name =>
    match x.declare name with
    | .ok (_, y) => y
    | .error _ => x
  | .resolve _ | .read _ | .clone => x
  | .write slot v =>
    match x.write slot v with
    | .ok y => y
    | .error _ => x
  | .fresh => x.fresh
  | .run settings depth p =>
    x.evaluated (({ store := x.table, settings, depth } : Interpreter).run p)
  | .eval settings depth n =>
    x.evaluated (({ store := x.table, settings, depth } : Interpreter).eval n)

def after (calls : List Call) : Indexed := calls.foldl call new

theorem table_evaluated {α : Type} {e : Evaluation α}
    (he : x.table.writeAll (Event.writes e.events) = .ok e.interpreter.store) :
    (x.evaluated e).table = e.interpreter.store := by
  rw [← writeAll_eq] at he
  rw [evaluated]
  cases hx : x.writeAll (Event.writes e.events) with
  | ok y =>
    rw [hx] at he
    exact Except.ok.inj he
  | error e =>
    rw [hx] at he
    cases he

/-- A call does to a store in two parts what it does to the table. -/
theorem table_call {h : History} (hx : x.table = h.store) (c : Call) :
    (x.call c).table = (h.call c).store := by
  cases c with
  | declare name =>
    simp only [call, History.call, ← hx, ← declare_eq]
    cases x.declare name <;> first | exact hx | rfl
  | resolve | read | clone => exact hx
  | write slot v =>
    simp only [call, History.call, ← hx, ← write_eq]
    cases x.write slot v <;> first | exact hx | rfl
  | fresh => rw [call, table_fresh, hx]; rfl
  | run settings depth p =>
    simp only [call, History.call, History.evaluated, ← hx]
    exact table_evaluated (({ store := x.table, settings, depth } : Interpreter).writeAll_run p)
  | eval settings depth n =>
    simp only [call, History.call, History.evaluated, ← hx]
    exact table_evaluated (({ store := x.table, settings, depth } : Interpreter).writeAll_eval n)

theorem table_new : new.table = {} :=
  table_eq (by simp [new, Store.names]) (by simp [new, contents?])

theorem table_after (calls : List Call) : (after calls).table = (History.after calls).store := by
  induction calls using List.reverseRecOn with
  | nil => exact table_new
  | append_singleton calls c ih =>
    rw [History.after_append, after, List.foldl_append]
    exact table_call ih c

/-- A store in two parts cannot be told from a table: it has the same names and contents, it
gives the same answers, and what it is after an operation stands for what the table is. -/
structure Refines (x : Indexed) (s : Store) : Prop where
  table_eq : x.table = s
  contents_eq : ∀ slot : ℕ, x.slots[slot]? = s.contents? slot
  names_eq : x.names = s.names.zipIdx
  resolve_eq : ∀ name, x.resolve name = s.resolve name
  read_eq : ∀ slot, x.read slot = s.read slot
  declare_eq : ∀ name, (x.declare name).map (Prod.map id table) = s.declare name
  write_eq : ∀ slot v, (x.write slot v).map table = s.write slot v
  fresh_eq : x.fresh.table = s.fresh

theorem refines_table (x : Indexed) : x.Refines x.table where
  table_eq := rfl
  contents_eq slot := (x.contents?_table slot).symm
  names_eq := x.names_eq
  resolve_eq := x.resolve_eq
  read_eq := x.read_eq
  declare_eq := x.declare_eq
  write_eq := x.write_eq
  fresh_eq := x.table_fresh

end Indexed
end Store

namespace Builder

/-- What some calls on a builder ask of its store. -/
def declarations (calls : List Call) : List Store.Call :=
  calls.filterMap fun c => c.declares?.map .declare

theorem table_after_declarations (calls : List Call) :
    (Store.Indexed.after (declarations calls)).table = (after calls).store := by
  induction calls using List.reverseRecOn with
  | nil => exact Store.Indexed.table_new
  | append_singleton calls c ih =>
    rw [declarations, List.filterMap_append, ← declarations, after, List.foldl_append, ← after]
    cases c with
    | declare name init =>
      rw [Store.Indexed.after, List.foldl_append]
      refine (Store.Indexed.table_call (h := ⟨(after calls).store, []⟩) ih (.declare name)).trans ?_
      simp only [List.foldl_cons, List.foldl_nil, call, answer, Builder.declare, Store.History.call]
      cases (after calls).store.declare name <;> rfl
    | number | fast | precise | assign | read | binary | negate =>
      rw [List.foldl_cons, call_eq_self rfl]
      simpa [Call.declares?] using ih

end Builder

/-- Whatever calls have made it, within interpreters or outside, a store in two parts is one
with the table that the same calls have made, and so is the store of a builder. -/
theorem indexed_refines_table :
    (∀ calls : List Store.Call,
      (Store.Indexed.after calls).Refines (Store.History.after calls).store) ∧
    ∀ calls : List Builder.Call,
      (Store.Indexed.after (Builder.declarations calls)).Refines (Builder.after calls).store := by
  constructor
  · intro calls
    rw [← Store.Indexed.table_after]
    exact Store.Indexed.refines_table _
  · intro calls
    rw [← Builder.table_after_declarations]
    exact Store.Indexed.refines_table _

end AdaptiveCalc
