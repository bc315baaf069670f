import AdaptiveCalc.Proofs.Evaluation.Runs
import Mathlib.Data.List.Forall2
import Mathlib.Data.List.Nodup

/-!
# Which sites settle

An evaluation leaves a tree as it is but for settled bits, and it sets exactly the bits
of the sites that it comes to with two integers and no result of 64 bits for them,
whatever happens afterwards. A settled site stays settled. Main statements:
`Evaluates.settledAt?_eq` and `Evaluates.settles`.
-/
namespace AdaptiveCalc
namespace Node

/-- The settled bit of the site at the end of a path; `none` where there is no site. -/
def settledAt? : Node → List Branch → Option Bool
  | .negate b _, [] => some b
  | .binary _ b _ _, [] => some b
  | .assign _ e, .expr :: path => e.settledAt? path
  | .negate _ e, .operand :: path => e.settledAt? path
  | .binary _ _ l _, .left :: path => l.settledAt? path
  | .binary _ _ _ r, .right :: path => r.settledAt? path
  | _, _ => none

def unsettled : Node → Node
  | .fast k => .fast k
  | .precise d => .precise d
  | .read slot => .read slot
  | .assign slot e => .assign slot e.unsettled
  | .negate _ e => .negate false e.unsettled
  | .binary op _ l r => .binary op false l.unsettled r.unsettled

/-- One tree becomes another by settling sites. -/
inductive Settles : Node → Node → Prop
  | fast (k : Int64) : Settles (.fast k) (.fast k)
  | precise (d : Decimal) : Settles (.precise d) (.precise d)
  | read (slot : ℕ) : Settles (.read slot) (.read slot)
  | assign (slot : ℕ) {e e' : Node} (he : Settles e e') : Settles (.assign slot e) (.assign slot e')
  | negate {b b' : Bool} {e e' : Node} (hb : b → b') (he : Settles e e') :
      Settles (.negate b e) (.negate b' e')
  | binary (op : Operator) {b b' : Bool} {l l' r r' : Node} (hb : b → b') (hl : Settles l l')
      (hr : Settles r r') : Settles (.binary op b l r) (.binary op b' l' r')

theorem Settles.refl (n : Node) : Settles n n := by
  induction n with
  | fast k => exact .fast k
  | precise d => exact .precise d
  | read slot => exact .read slot
  | assign slot e ih => exact .assign slot ih
  | negate b e ih => exact .negate id ih
  | binary op b l r ihl ihr => exact .binary op id ihl ihr

theorem Settles.trans {n m k : Node} (h₁ : Settles n m) (h₂ : Settles m k) : Settles n k := by
  induction h₁ generalizing k with
  | fast | precise | read => exact h₂
  | assign slot _ ih => cases h₂ with | assign _ he => exact .assign slot (ih he)
  | negate hb _ ih => cases h₂ with | negate hb' he => exact .negate (hb' ∘ hb) (ih he)
  | binary op hb _ _ ihl ihr =>
    cases h₂ with
    | binary _ hb' hl hr => exact .binary op (hb' ∘ hb) (ihl hl) (ihr hr)

theorem Settles.unsettled_eq {n m : Node} (h : Settles n m) : m.unsettled = n.unsettled := by
  induction h with
  | fast | precise | read => rfl
  | assign slot _ ih => rw [unsettled, unsettled, ih]
  | negate _ _ ih => rw [unsettled, unsettled, ih]
  | binary op _ _ _ ihl ihr => rw [unsettled, unsettled, ihl, ihr]

/-- A tree is known by its shape and its settled bits. -/
theorem eq_of_settledAt?_eq {n m : Node} (htree : n.unsettled = m.unsettled)
    (hbits : ∀ path, n.settledAt? path = m.settledAt? path) : n = m := by
  induction n generalizing m with
  | fast k => cases m <;> cases htree; rfl
  | precise d => cases m <;> cases htree; rfl
  | read slot => cases m <;> cases htree; rfl
  | assign slot e ih =>
    cases m with
    | assign slot' e' =>
      injection htree with hslot he
      rw [hslot, ih he fun path => hbits (.expr :: path)]
    | _ => cases htree
  | negate b e ih =>
    cases m with
    | negate b' e' =>
      injection htree with _ he
      have hb : b = b' := Option.some.inj (hbits [])
      rw [hb, ih he fun path => hbits (.operand :: path)]
    | _ => cases htree
  | binary op b l r ihl ihr =>
    cases m with
    | binary op' b' l' r' =>
      injection htree with hop _ hl hr
      have hb : b = b' := Option.some.inj (hbits [])
      rw [hop, hb, ihl hl fun path => hbits (.left :: path),
        ihr hr fun path => hbits (.right :: path)]
    | _ => cases htree

theorem Settles.settledAt? {n m : Node} (h : Settles n m) {path : List Branch} {b : Bool}
    (hb : n.settledAt? path = some b) : ∃ b', m.settledAt? path = some b' ∧ (b → b') := by
  induction h generalizing path with
  | fast | precise | read => cases hb
  | assign slot _ ih =>
    rcases path with - | ⟨- | - | - | -, path⟩
    · cases hb
    · exact ih hb
    all_goals cases hb
  | negate h _ ih =>
    rcases path with - | ⟨- | - | - | -, path⟩
    · cases hb; exact ⟨_, rfl, h⟩
    · cases hb
    · exact ih hb
    all_goals cases hb
  | binary op h _ _ ihl ihr =>
    rcases path with - | ⟨- | - | - | -, path⟩
    · cases hb; exact ⟨_, rfl, h⟩
    · cases hb
    · cases hb
    · exact ihl hb
    · exact ihr hb

end Node

/-- Whether a site on being so visited settles. -/
def Visit.fails (x : Visit) : Bool := (Value.failure? x.op x.left x.right).isSome

/-- Whether some of the visits settle the site at the end of a path. -/
def settledBy (xs : List Visit) (path : List Branch) : Bool :=
  xs.any fun x => x.path == path && x.fails

@[simp] theorem settledBy_nil (path : List Branch) : settledBy [] path = false := rfl

@[simp] theorem settledBy_append (xs ys : List Visit) (path : List Branch) :
    settledBy (xs ++ ys) path = (settledBy xs path || settledBy ys path) := List.any_append

@[simp] theorem settledBy_map_below_nil (xs : List Visit) (b : Branch) :
    settledBy (xs.map (Visit.below b)) [] = false := by
  simp [settledBy]

@[simp] theorem settledBy_map_below (xs : List Visit) (b : Branch) (path : List Branch) :
    settledBy (xs.map (Visit.below b)) (b :: path) = settledBy xs path := by
  simp [settledBy, Function.comp_def, Visit.fails]

@[simp] theorem settledBy_map_below_of_ne (xs : List Visit) {b c : Branch} (h : b ≠ c)
    (path : List Branch) : settledBy (xs.map (Visit.below b)) (c :: path) = false := by
  simp [settledBy, h]

@[simp] theorem settledBy_root (op : Operator) (v w : Value) (path : List Branch) :
    settledBy [⟨[], op, v, w⟩] path = (path.isEmpty && (Value.failure? op v w).isSome) := by
  cases path <;> simp [settledBy, Visit.fails]

section Evaluation
variable {settings : Settings} {n : Node} {s : State} {o : Outcome} {xs : List Visit}

theorem Evaluates.settles (h : Evaluates settings n s o xs) : n.Settles o.node := by
  induction h with
  | tooDeep => exact .refl _
  | fast => exact .fast _
  | precise => exact .precise _
  | readFailed => exact .read _
  | read => exact .read _
  | assignFailed _ _ ih => exact .assign _ ih
  | writeFailed _ _ _ ih => exact .assign _ ih
  | assign _ _ _ ih => exact .assign _ ih
  | negateFailed _ _ ih => exact .negate id ih
  | negate _ _ ha ih =>
    refine .negate (fun hb => ?_) ih
    rw [← ha, settled_applySite, hb, Bool.true_or]
  | leftFailed _ _ ih => exact .binary _ id ih (.refl _)
  | rightFailed _ _ _ ihl ihr => exact .binary _ id ihl ihr
  | binary _ _ _ ha ihl ihr =>
    refine .binary _ (fun hb => ?_) ihl ihr
    rw [← ha, settled_applySite, hb, Bool.true_or]

/-- The bits after an evaluation: those set before, and those of the sites that failed. -/
theorem Evaluates.settledAt?_eq (h : Evaluates settings n s o xs) (path : List Branch) :
    o.node.settledAt? path = (n.settledAt? path).map (· || settledBy xs path) := by
  induction h generalizing path with
  | tooDeep => simp
  | fast | precise | readFailed | read => simp
  | assignFailed _ _ ih =>
    rcases path with - | ⟨- | - | - | -, path⟩ <;> simp [Node.settledAt?, ih]
  | writeFailed _ _ _ ih =>
    rcases path with - | ⟨- | - | - | -, path⟩ <;> simp [Node.settledAt?, ih]
  | assign _ _ _ ih =>
    rcases path with - | ⟨- | - | - | -, path⟩ <;> simp [Node.settledAt?, ih]
  | negateFailed _ _ ih =>
    rcases path with - | ⟨- | - | - | -, path⟩ <;> simp [Node.settledAt?, ih]
  | negate _ _ ha ih =>
    rcases path with - | ⟨- | - | - | -, path⟩ <;>
      simp [Node.settledAt?, ih, ← ha, settled_applySite]
  | leftFailed _ _ ih =>
    rcases path with - | ⟨- | - | - | -, path⟩ <;> simp [Node.settledAt?, ih]
  | rightFailed _ _ _ ihl ihr =>
    rcases path with - | ⟨- | - | - | -, path⟩ <;> simp [Node.settledAt?, ihl, ihr]
  | binary _ _ _ ha ihl ihr =>
    rcases path with - | ⟨- | - | - | -, path⟩ <;>
      simp [Node.settledAt?, ihl, ihr, ← ha, settled_applySite]

/-- An evaluation comes to a site at most once. -/
theorem Evaluates.nodup_paths (h : Evaluates settings n s o xs) :
    (xs.map Visit.path).Nodup := by
  have hbelow : ∀ (b : Branch) (ys : List Visit), (ys.map Visit.path).Nodup →
      ((ys.map (Visit.below b)).map Visit.path).Nodup := by
    intro b ys hys
    rw [List.map_map, show Visit.path ∘ Visit.below b = (b :: ·) ∘ Visit.path from rfl,
      ← List.map_map]
    exact hys.map List.cons_injective
  induction h with
  | tooDeep | fast | precise | readFailed | read => exact List.nodup_nil
  | assignFailed _ _ ih => exact hbelow _ _ ih
  | writeFailed _ _ _ ih => exact hbelow _ _ ih
  | assign _ _ _ ih => exact hbelow _ _ ih
  | negateFailed _ _ ih => exact hbelow _ _ ih
  | negate _ _ _ ih =>
    rw [List.map_append, List.nodup_append]
    refine ⟨hbelow _ _ ih, List.nodup_singleton _, ?_⟩
    simp
  | leftFailed _ _ ih => exact hbelow _ _ ih
  | rightFailed _ _ _ ihl ihr =>
    rw [List.map_append, List.nodup_append]
    refine ⟨hbelow _ _ ihl, hbelow _ _ ihr, ?_⟩
    simp
  | binary _ _ _ _ ihl ihr =>
    rw [List.map_append, List.map_append, List.nodup_append, List.nodup_append]
    refine ⟨hbelow _ _ ihl, ⟨hbelow _ _ ihr, List.nodup_singleton _, ?_⟩, ?_⟩
    · simp
    · simp only [List.map_map, List.mem_map, List.mem_append]
      rintro _ ⟨x, -, rfl⟩ _ (⟨y, -, rfl⟩ | ⟨y, hy, rfl⟩) heq
      · cases heq
      · rw [List.mem_singleton.1 hy] at heq
        cases heq

/-- What comes to the same sites with the same operands as an evaluation before it finds
nothing left to settle. -/
theorem Evaluates.node_eq (h : Evaluates settings n s o xs) {settings' : Settings} {s' : State}
    {o' : Outcome} (h' : Evaluates settings' o.node s' o' xs) : o'.node = o.node := by
  refine Node.eq_of_settledAt?_eq h'.settles.unsettled_eq fun path => ?_
  rw [h'.settledAt?_eq, h.settledAt?_eq]
  cases n.settledAt? path with
  | none => rfl
  | some b => simp

theorem settledBy_eq_true_iff {path : List Branch} :
    settledBy xs path = true ↔ ∃ op a b failure, ⟨path, op, .fast a, .fast b⟩ ∈ xs ∧
      Fast.apply op a b = .error failure := by
  simp only [settledBy, List.any_eq_true, Bool.and_eq_true, beq_iff_eq, Visit.fails,
    Option.isSome_iff_exists, Value.failure?_eq_some_iff]
  constructor
  · rintro ⟨⟨path, op, v, w⟩, hx, rfl, failure, a, b, rfl, rfl, hf⟩
    exact ⟨op, a, b, failure, hx, hf⟩
  · rintro ⟨op, a, b, failure, hx, hf⟩
    exact ⟨_, hx, rfl, failure, a, b, rfl, rfl, hf⟩

theorem settledBy_eq_false_of_forall_ne {path : List Branch} (h : ∀ x ∈ xs, x.path ≠ path) :
    settledBy xs path = false := by
  simp only [settledBy, List.any_eq_false]
  intro x hx
  simp [h x hx]

/-- A site that is visited with a decimal is not visited with two integers as well. -/
theorem settledBy_eq_false_of_mem (hnodup : (xs.map Visit.path).Nodup) {x : Visit} (hx : x ∈ xs)
    (hprecise : ¬ (x.left.isFast ∧ x.right.isFast)) : settledBy xs x.path = false := by
  rw [Bool.eq_false_iff, ne_eq, settledBy_eq_true_iff]
  rintro ⟨op, a, b, failure, hmem, -⟩
  have := List.inj_on_of_nodup_map hnodup hx hmem rfl
  rw [this] at hprecise
  exact hprecise ⟨rfl, rfl⟩

end Evaluation

/-- What an evaluation from `s` does to the settled bits of `n`, which it leaves as `n'`. -/
structure SettlesExactly (settings : Settings) (n : Node) (s : State) (n' : Node) : Prop where
  same_tree : n'.unsettled = n.unsettled
  keeps_settled : ∀ path, n.settledAt? path = some true → n'.settledAt? path = some true
  settles_iff : ∀ path, n.settledAt? path = some false →
    (n'.settledAt? path = some true ↔ ∃ op a b failure,
      ⟨path, op, .fast a, .fast b⟩ ∈ n.visits settings s ∧ Fast.apply op a b = .error failure)
  of_precise : ∀ x ∈ n.visits settings s, ¬ (x.left.isFast ∧ x.right.isFast) →
    n'.settledAt? x.path = n.settledAt? x.path
  of_unvisited : ∀ path, (∀ x ∈ n.visits settings s, x.path ≠ path) →
    n'.settledAt? path = n.settledAt? path

theorem Node.settlesExactly (settings : Settings) (n : Node) (s : State) :
    SettlesExactly settings n s (n.evaluate settings s).node := by
  have h := n.evaluates settings s
  refine ⟨h.settles.unsettled_eq, ?_, ?_, ?_, ?_⟩
  · intro path hb
    rw [h.settledAt?_eq, hb]
    simp
  · intro path hb
    rw [h.settledAt?_eq, hb, ← settledBy_eq_true_iff]
    simp
  · intro x hx hprecise
    rw [h.settledAt?_eq, settledBy_eq_false_of_mem h.nodup_paths hx hprecise]
    simp
  · intro path hne
    rw [h.settledAt?_eq, settledBy_eq_false_of_forall_ne hne]
    simp

namespace Program

structure Settles (p q : Program) : Prop where
  leading : List.Forall₂ Node.Settles p.leading q.leading
  last : p.last.Settles q.last

theorem Settles.refl (p : Program) : p.Settles p :=
  ⟨List.forall₂_same.2 fun n _ => .refl n, .refl p.last⟩

theorem Settles.trans {p q r : Program} (h₁ : p.Settles q) (h₂ : q.Settles r) : p.Settles r := by
  obtain ⟨hleading₁, hlast₁⟩ := h₁
  obtain ⟨hleading₂, hlast₂⟩ := h₂
  refine ⟨?_, hlast₁.trans hlast₂⟩
  generalize p.leading = ns at hleading₁
  generalize q.leading = ms at hleading₁ hleading₂
  generalize r.leading = ks at hleading₂
  induction hleading₁ generalizing ks with
  | nil => exact hleading₂
  | cons hn _ ih =>
    cases hleading₂ with
    | cons hm hrest => exact .cons (hn.trans hm) (ih _ hrest)

theorem Settles.statements {p q : Program} (h : p.Settles q) :
    List.Forall₂ Node.Settles p.statements q.statements :=
  List.rel_append h.leading (.cons h.last .nil)

end Program

theorem Executes.settles {settings : Settings} {index : ℕ} {leading : List Node} {last : Node}
    {s : State} {e : Ending} {xss : List (List Visit)}
    (h : Executes settings index leading last s e xss) :
    Program.Settles ⟨leading, last⟩ ⟨e.leading, e.last⟩ := by
  induction h with
  | last hn => exact ⟨.nil, hn.settles⟩
  | failed hn => exact ⟨.cons hn.settles (List.forall₂_same.2 fun n _ => .refl n), .refl _⟩
  | next hn _ ih => exact ⟨.cons hn.settles ih.leading, ih.last⟩

theorem Executes.subject_eq {settings settings' : Settings} {index index' : ℕ}
    {leading : List Node} {last : Node} {s s' : State} {e e' : Ending} {xss : List (List Visit)}
    (h : Executes settings index leading last s e xss)
    (h' : Executes settings' index' e.leading e.last s' e' xss) :
    e'.leading = e.leading ∧ e'.last = e.last := by
  induction h generalizing index' s' e' with
  | last hn =>
    cases h' with
    | last hn' => exact ⟨rfl, hn.node_eq hn'⟩
  | failed hn =>
    cases h' with
    | failed hn' => exact ⟨congrArg (· :: _) (hn.node_eq hn'), rfl⟩
    | next _ hrest => cases hrest
  | next hn hrest ih =>
    cases h' with
    | failed => cases hrest
    | next hn' hrest' =>
      obtain ⟨hleading, hlast⟩ := ih hrest'
      exact ⟨congrArg₂ List.cons (hn.node_eq hn') hleading, hlast⟩

end AdaptiveCalc
