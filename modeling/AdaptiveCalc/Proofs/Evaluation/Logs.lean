import AdaptiveCalc.Proofs.Evaluation.Changes
import AdaptiveCalc.Proofs.Evaluation.Stages

/-!
# What an evaluation logs

Step by step, an evaluation logs each change when it happens. A settled site is not settled
again and a slot with a decimal is not demoted again, so no change is logged twice; and the
sites that are logged are those that the evaluation finds clear and leaves settled. Main
statements: `Stage.exists_logs`, `Stage.Logs.records` and `Stage.Logs.mem_settledPaths_iff`.
-/
namespace AdaptiveCalc

/-- Marks that are set and not taken back: between two moments those of a list are set, each
of them once. -/
structure Marks {α : Type} (before after : α → Prop) (xs : List α) : Prop where
  nodup : xs.Nodup
  fresh : ∀ a ∈ xs, ¬ before a
  marked : ∀ a ∈ xs, after a
  keeps : ∀ a, before a → after a

namespace Marks
variable {α : Type} {P Q R : α → Prop} {xs ys : List α}

theorem refl (P : α → Prop) : Marks P P [] :=
  ⟨List.nodup_nil, by simp, by simp, fun _ => id⟩

theorem trans (h₁ : Marks P Q xs) (h₂ : Marks Q R ys) : Marks P R (xs ++ ys) where
  nodup := by
    rw [List.nodup_append]
    refine ⟨h₁.nodup, h₂.nodup, ?_⟩
    rintro a hx _ hy rfl
    exact h₂.fresh a hy (h₁.marked a hx)
  fresh a ha := by
    rcases List.mem_append.1 ha with hx | hy
    · exact h₁.fresh a hx
    · exact fun hbefore => h₂.fresh a hy (h₁.keeps a hbefore)
  marked a ha := by
    rcases List.mem_append.1 ha with hx | hy
    · exact h₂.keeps a (h₁.marked a hx)
    · exact h₂.marked a hy
  keeps a ha := h₂.keeps a (h₁.keeps a ha)

theorem singleton {a : α} (hfresh : ¬ P a) (hmarked : Q a) (hkeeps : ∀ a, P a → Q a) :
    Marks P Q [a] :=
  ⟨List.nodup_singleton a, by simpa using hfresh, by simpa using hmarked, hkeeps⟩

theorem mono (h : Marks P Q xs) (hkeeps : ∀ a, Q a → R a) : Marks P R xs where
  nodup := h.nodup
  fresh := h.fresh
  marked a ha := hkeeps a (h.marked a ha)
  keeps a ha := hkeeps a (h.keeps a ha)

/-- In a row of times, and if no mark is taken back between them either, no mark is set
twice. -/
theorem flatMap {β : Type} {before after : β → α → Prop} {marks : β → List α} (b : β)
    (bs : List β) (h : ∀ c ∈ b :: bs, Marks (before c) (after c) (marks c))
    (hchain : (b :: bs).IsChain fun c c' => ∀ a, after c a → before c' a) :
    Marks (before b) (after ((b :: bs).getLast (List.cons_ne_nil b bs)))
      ((b :: bs).flatMap marks) := by
  induction bs generalizing b with
  | nil => simpa using h b (by simp)
  | cons c bs ih =>
    obtain ⟨hnext, hchain⟩ := List.isChain_cons_cons.1 hchain
    have hfirst := h b (by simp)
    have hrest := ih c (fun d hd => h d (List.mem_cons_of_mem b hd)) hchain
    exact (hfirst.mono hnext).trans hrest

end Marks

def Node.IsSettled (n : Node) (path : List Branch) : Prop := n.settledAt? path = some true

def Store.IsPrecise (s : Store) (slot : ℕ) : Prop := s.kind? slot = some .precise

def Change.path? : Change → Option (List Branch)
  | settle path .. => some path
  | demotion _ => none

def Change.slot? : Change → Option ℕ
  | settle .. => none
  | demotion slot => some slot

def settledPaths (cs : List Change) : List (List Branch) := cs.filterMap Change.path?

def demotedSlots (cs : List Change) : List ℕ := cs.filterMap Change.slot?

theorem Store.IsPrecise.write {s t : Store} {slot k : ℕ} {v : Value} (hk : s.IsPrecise k)
    (h : s.write slot v = .ok t) : t.IsPrecise k := by
  unfold IsPrecise kind? at hk ⊢
  rw [contents?_of_write h]
  split
  · obtain ⟨c, hc, hkind⟩ := Option.map_eq_some_iff.1 hk
    rw [hc, Option.map_some, Option.map_some, Contents.kind_write, if_pos (.inl hkind)]
  · exact hk

namespace Changes
variable {m k : Machine} {cs : List Change}

theorem sites (h : Changes m k cs) :
    Marks m.tree.IsSettled k.tree.IsSettled (settledPaths cs) := by
  cases h with
  | none htree | write htree | demotion htree => rw [htree]; exact .refl _
  | @settle path _ _ _ _ hclear _ _ _ htree =>
    unfold Node.IsSettled
    rw [htree]
    refine .singleton (by simp [hclear]) (by simp [Node.settledAt?_settleAt, hclear]) ?_
    intro path' hset
    rw [Node.settledAt?_settleAt, hset]
    split <;> simp [hclear]

theorem settled_before_or_mem (h : Changes m k cs) {path : List Branch}
    (hpath : k.tree.IsSettled path) : m.tree.IsSettled path ∨ path ∈ settledPaths cs := by
  cases h with
  | none htree | write htree | demotion htree => exact .inl (htree ▸ hpath)
  | settle _ _ _ _ htree =>
    rw [Node.IsSettled, htree, Node.settledAt?_settleAt] at hpath
    split at hpath
    · next heq => exact .inr (List.mem_singleton.2 heq)
    · exact .inl hpath

theorem slots (h : Changes m k cs) :
    Marks m.state.store.IsPrecise k.state.store.IsPrecise (demotedSlots cs) := by
  cases h with
  | none _ hstore | settle _ _ _ _ _ hstore => rw [hstore]; exact .refl _
  | write _ hwrite => exact ⟨List.nodup_nil, nofun, nofun, fun _ hk => hk.write hwrite⟩
  | demotion _ hwrite hdemotes =>
    refine .singleton ?_ hdemotes.2 fun _ hk => hk.write hwrite
    rw [Store.IsPrecise, hdemotes.1]
    nofun

end Changes

theorem records_append (es es' : List Event) : records (es ++ es') = records es ++ records es' :=
  List.filterMap_append

namespace Machine

/-- A stretch of the way of the machine, and all the changes on it. -/
inductive Logs (settings : Settings) : Machine → Machine → List Change → Prop
  | done (m : Machine) : Logs settings m m []
  | step {m k l : Machine} {cs ds : List Change} (h : m.tick settings = some k)
      (hshows : Shows m k cs) (hrest : Logs settings k l ds) : Logs settings m l (cs ++ ds)

variable {settings : Settings} {m k : Machine} {cs : List Change}

theorem Steps.exists_logs (h : Steps settings m k) : ∃ cs, Logs settings m k cs := by
  induction h with
  | done m => exact ⟨[], .done m⟩
  | step htick _ ih =>
    obtain ⟨cs, hshows⟩ := exists_shows_of_tick htick
    obtain ⟨ds, hrest⟩ := ih
    exact ⟨cs ++ ds, .step htick hshows hrest⟩

namespace Logs

theorem logged (h : Logs settings m k cs) : ∃ es, k.state.history = es ++ m.state.history ∧
    records es.reverse = cs.map Change.record := by
  induction h with
  | done => exact ⟨[], rfl, rfl⟩
  | step _ hshows _ ih =>
    obtain ⟨es, hhistory, hrecords⟩ := hshows.logged
    obtain ⟨es', hhistory', hrecords'⟩ := ih
    refine ⟨es' ++ es, by rw [hhistory', hhistory, List.append_assoc], ?_⟩
    rw [List.reverse_append, records_append, List.map_append, hrecords, hrecords']

theorem sites (h : Logs settings m k cs) :
    Marks m.tree.IsSettled k.tree.IsSettled (settledPaths cs) := by
  induction h with
  | done => exact .refl _
  | step _ hshows _ ih =>
    rw [settledPaths, List.filterMap_append]
    exact hshows.changes.sites.trans ih

theorem settled_before_or_mem (h : Logs settings m k cs) {path : List Branch}
    (hpath : k.tree.IsSettled path) : m.tree.IsSettled path ∨ path ∈ settledPaths cs := by
  induction h with
  | done => exact .inl hpath
  | step _ hshows _ ih =>
    rw [settledPaths, List.filterMap_append, List.mem_append]
    rcases ih hpath with hset | hmem
    · exact (hshows.changes.settled_before_or_mem hset).imp_right .inl
    · exact .inr (.inr hmem)

theorem slots (h : Logs settings m k cs) :
    Marks m.state.store.IsPrecise k.state.store.IsPrecise (demotedSlots cs) := by
  induction h with
  | done => exact .refl _
  | step _ hshows _ ih =>
    rw [demotedSlots, List.filterMap_append]
    exact hshows.changes.slots.trans ih

end Logs
end Machine

namespace Stage

def Logs (x : Stage) (cs : List Change) : Prop :=
  Machine.Logs x.interpreter.settings (.enter x.statement x.interpreter.state [])
    (.leave (x.statement.eval x.interpreter.settings x.interpreter.state) []) cs

theorem exists_logs (x : Stage) : ∃ cs, x.Logs cs :=
  (Machine.steps_run x.interpreter.settings (.enter x.statement x.interpreter.state [])).exists_logs

namespace Logs
variable {x : Stage} {cs : List Change}

theorem records (h : x.Logs cs) : records x.evaluation.events = cs.map Change.record := by
  obtain ⟨es, hhistory, hrecords⟩ := Machine.Logs.logged h
  rw [← hrecords]
  exact congrArg (fun es => AdaptiveCalc.records es.reverse) (hhistory.trans (List.append_nil es))

theorem sites (h : x.Logs cs) :
    Marks x.statement.IsSettled x.evaluation.subject.IsSettled (settledPaths cs) :=
  Machine.Logs.sites h

theorem slots (h : x.Logs cs) :
    Marks x.interpreter.store.IsPrecise x.evaluation.interpreter.store.IsPrecise
      (demotedSlots cs) :=
  Machine.Logs.slots h

/-- The sites that are logged are those that go from clear to set. -/
theorem mem_settledPaths_iff (h : x.Logs cs) {path : List Branch} :
    path ∈ settledPaths cs ↔ x.statement.settledAt? path = some false ∧
      x.evaluation.subject.settledAt? path = some true := by
  constructor
  · intro hpath
    have hfresh : x.statement.settledAt? path ≠ some true := h.sites.fresh path hpath
    have hmarked : x.evaluation.subject.settledAt? path = some true := h.sites.marked path hpath
    have hbits := (x.interpreter.evaluates x.statement).settledAt?_eq path
    refine ⟨?_, hmarked⟩
    cases hbit : x.statement.settledAt? path with
    | none =>
      rw [hbit] at hbits
      cases hbits.symm.trans hmarked
    | some b =>
      cases b with
      | false => rfl
      | true => exact absurd hbit hfresh
  · rintro ⟨hclear, hset⟩
    refine (Machine.Logs.settled_before_or_mem h hset).resolve_left fun hbefore => ?_
    cases hclear.symm.trans hbefore

end Logs
end Stage
end AdaptiveCalc
