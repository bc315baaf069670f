import AdaptiveCalc.Proofs.Evaluation.Settling
import Mathlib.Logic.Function.Basic

/-!
# What all runs have in common

An outline is a run that never stops and computes with integers only: where a run would
have a decimal, it just notes that there is one. It depends on the kinds and integers in
the store and on the settled bits, but neither on precision nor on depth. Every run that
is started on these, and every tree that such runs leave, stays within the outline, and
an evaluation of such a tree gives what the original tree gives. Main statement:
`Evaluates.within`.
-/
namespace AdaptiveCalc

/-- A slot with an integer, a slot with a decimal (`some none`), or one without a value. -/
abbrev Kinds := ℕ → Option (Option Int64)

/-- A slot that holds a decimal stays so. -/
def Kinds.write (K : Kinds) (slot : ℕ) (k : Option Int64) : Kinds :=
  Function.update K slot (some (if K slot = some none then none else k))

theorem Contents.toFast?_write (c : Contents) (v : Value) :
    (c.write v).value?.map Value.toFast? =
      some (if c.value?.map Value.toFast? = some none then none else v.toFast?) := by
  cases c with
  | empty => exact congrArg (Option.map Value.toFast?) (value?_ofValue v)
  | fast n => exact congrArg (Option.map Value.toFast?) (value?_ofValue v)
  | precise d => rfl

namespace Store

def kinds (s : Store) : Kinds := fun slot =>
  ((s.contents? slot).bind Contents.value?).map Value.toFast?

variable {s t : Store} {slot : ℕ} {v : Value}

theorem kinds_of_read (h : s.read slot = .ok v) : s.kinds slot = some v.toFast? := by
  unfold read at h
  split at h
  · next w hw =>
    cases h
    rw [kinds, hw]
    rfl
  · cases h

theorem kinds_of_write (h : s.write slot v = .ok t) : t.kinds = s.kinds.write slot v.toFast? := by
  obtain ⟨c, hc⟩ := exists_contents?_of_write h
  funext i
  rw [Kinds.write, kinds, contents?_of_write h]
  by_cases hi : slot = i
  · subst hi
    rw [if_pos rfl, Function.update_self, kinds, hc]
    exact c.toFast?_write v
  · rw [if_neg hi, Function.update_of_ne (Ne.symm hi)]
    rfl

end Store

/-- What becomes of a site: its result, if that is an integer, and its settled bit. -/
structure Mark where
  value : Option Int64
  settled : Bool

def Mark.apply (op : Operator) (settled : Bool) : Option Int64 → Option Int64 → Mark
  | some a, some b =>
    match settled, Fast.apply op a b with
    | false, .ok n => ⟨some n, false⟩
    | _, _ => ⟨none, true⟩
  | _, _ => ⟨none, settled⟩

/-- A tree after its outline, with the value and the kinds that go with it. -/
structure Outline where
  value : Option Int64
  node : Node
  kinds : Kinds

/-- An empty slot is read as if it held a decimal, for no run goes on from there. -/
def Node.outline : Node → Kinds → Outline
  | .fast k, K => ⟨some k, .fast k, K⟩
  | .precise d, K => ⟨none, .precise d, K⟩
  | .read slot, K => ⟨(K slot).join, .read slot, K⟩
  | .assign slot e, K =>
    let o := e.outline K
    ⟨o.value, .assign slot o.node, o.kinds.write slot o.value⟩
  | .negate b e, K =>
    let o := e.outline K
    let a := Mark.apply .sub b (some 0) o.value
    ⟨a.value, .negate a.settled o.node, o.kinds⟩
  | .binary op b l r, K =>
    let o := l.outline K
    let q := r.outline o.kinds
    let a := Mark.apply op b o.value q.value
    ⟨a.value, .binary op a.settled o.node q.node, q.kinds⟩

theorem Node.settles_outline (n : Node) (K : Kinds) : n.Settles (n.outline K).node := by
  have hmark : ∀ (op : Operator) (b : Bool) (k m : Option Int64),
      b → (Mark.apply op b k m).settled := by
    intro op b k m hb
    cases hb
    cases k <;> cases m <;> rfl
  induction n generalizing K with
  | fast k => exact .fast k
  | precise d => exact .precise d
  | read slot => exact .read slot
  | assign slot e ih => exact .assign slot (ih K)
  | negate b e ih => exact .negate (hmark _ _ _ _) (ih K)
  | binary op b l r ihl ihr => exact .binary op (hmark _ _ _ _) (ihl K) (ihr _)

section
variable {op : Operator} {precision : ℕ} {b₀ b : Bool} {v w : Value}

@[simp] theorem Value.toFast?_fast (n : Int64) : (fast n).toFast? = some n := rfl

@[simp] theorem Value.toFast?_precise (d : Decimal) : (precise d).toFast? = none := rfl

theorem Value.toFast?_of_applyPrecise {r : Value}
    (h : Value.applyPrecise op precision v w = .ok r) : r.toFast? = none := by
  unfold Value.applyPrecise at h
  cases hd : Decimal.apply op precision v.toDecimal w.toDecimal with
  | error e => rw [hd] at h; cases h
  | ok d => rw [hd] at h; cases h; rfl

/-- A bit that only the outline sets belongs to a site that computes on decimals anyway. -/
theorem applySite_eq_of_within (hlo : b₀ → b)
    (hhi : b → (Mark.apply op b₀ v.toFast? w.toFast?).settled) :
    (applySite op precision b v w).result = (applySite op precision b₀ v w).result := by
  rw [result_applySite, result_applySite]
  cases b₀ with
  | true => rw [hlo rfl]
  | false =>
    cases b with
    | false => rfl
    | true =>
      have hmark := hhi rfl
      simp only [if_true, Bool.false_eq_true, if_false, Value.apply]
      split
      · next p q =>
        split
        · next n hn => simp [Mark.apply, hn] at hmark
        · rfl
      · rfl

theorem settled_of_applySite (hhi : b → (Mark.apply op b₀ v.toFast? w.toFast?).settled)
    (h : (applySite op precision b v w).settled) :
    (Mark.apply op b₀ v.toFast? w.toFast?).settled := by
  rw [settled_applySite, Bool.or_eq_true] at h
  rcases h with h | h
  · exact hhi h
  · obtain ⟨f, hf⟩ := Option.isSome_iff_exists.1 h
    obtain ⟨p, q, rfl, rfl, hfail⟩ := Value.failure?_eq_some_iff.1 hf
    simp only [Value.toFast?_fast, Mark.apply, hfail]

theorem toFast?_of_applySite {r : Value} (hlo : b₀ → b)
    (hhi : b → (Mark.apply op b₀ v.toFast? w.toFast?).settled)
    (h : (applySite op precision b v w).result = .ok r) :
    r.toFast? = (Mark.apply op b₀ v.toFast? w.toFast?).value := by
  rw [applySite_eq_of_within hlo hhi, result_applySite] at h
  cases b₀ with
  | true =>
    rw [Value.toFast?_of_applyPrecise h]
    cases v <;> cases w <;> rfl
  | false =>
    simp only [Bool.false_eq_true, if_false] at h
    cases v with
    | precise d => exact Value.toFast?_of_applyPrecise h
    | fast p =>
      cases w with
      | precise d => exact Value.toFast?_of_applyPrecise h
      | fast q =>
        simp only [Value.apply] at h
        simp only [Value.toFast?_fast, Mark.apply]
        split at h
        · next n hn =>
          cases h
          simp [hn]
        · next f hf =>
          rw [Value.toFast?_of_applyPrecise h]
          simp [hf]

end

/-- States that differ at most in their history, which no evaluation reads. -/
structure State.Alike (s s' : State) : Prop where
  store : s'.store = s.store
  depth : s'.depth = s.depth

namespace State.Alike

variable {s s' : State}

theorem enter (h : s.Alike s') : s.enter.Alike s'.enter :=
  ⟨h.store, congrArg (· + 1) h.depth⟩

theorem leave (h : s.Alike s') : s.leave.Alike s'.leave :=
  ⟨h.store, congrArg (· - 1) h.depth⟩

theorem emit (h : s.Alike s') (e e' : Event) : (s.emit e).Alike (s'.emit e') :=
  ⟨h.store, h.depth⟩

theorem settling (h : s.Alike s') (op : Operator) (f f' : Option Fast.Failure) :
    (s.settling op f).Alike (s'.settling op f') := by
  constructor
  · rw [store_settling, store_settling, h.store]
  · rw [depth_settling, depth_settling, h.depth]

end State.Alike

/-- An evaluation that stays within the outline of `n₀`, and that `n₀` repeats. -/
structure Within (settings : Settings) (n₀ : Node) (s : State) (o : Outcome)
    (xs : List Visit) : Prop where
  node : o.node.Settles (n₀.outline s.store.kinds).node
  value : ∀ v, o.result = .ok v → v.toFast? = (n₀.outline s.store.kinds).value
  kinds : ∀ v, o.result = .ok v → o.state.store.kinds = (n₀.outline s.store.kinds).kinds
  replay : ∀ s', s.Alike s' →
    ∃ o', Evaluates settings n₀ s' o' xs ∧ o'.result = o.result ∧ o.state.Alike o'.state

namespace Within
variable {settings : Settings} {n₀ n' l₀ l' r₀ r' : Node} {s t u : State} {v w : Value}
  {xs ys : List Visit}

theorem of_error {x : EvalError} (hnode : n'.Settles (n₀.outline s.store.kinds).node)
    (hreplay : ∀ s', s.Alike s' →
      ∃ o', Evaluates settings n₀ s' o' xs ∧ o'.result = .error x ∧ t.Alike o'.state) :
    Within settings n₀ s ⟨.error x, n', t⟩ xs where
  node := hnode
  value v hv := by cases hv
  kinds v hv := by cases hv
  replay := hreplay

theorem assign {slot : ℕ} {store : Store} (hd : s.depth < settings.maxDepth)
    (hw : Within settings n₀ s.enter ⟨.ok v, n', t⟩ xs)
    (hwrite : t.store.write slot v = .ok store) :
    Within settings (.assign slot n₀) s
      ⟨.ok v, .assign slot n',
        ({ t with store }.emit (.write slot v (t.store.demotedBy slot v))).leave⟩
      (xs.map (Visit.below .expr)) := by
  have hvalue := hw.value _ rfl
  have hkinds := hw.kinds _ rfl
  simp only [State.store_enter] at hvalue hkinds
  refine ⟨.assign _ hw.node, ?_, ?_, fun s' hs => ?_⟩
  · rintro _ ⟨⟩
    exact hvalue
  · rintro _ ⟨⟩
    simp only [State.store_leave, State.store_emit, Store.kinds_of_write hwrite, Node.outline,
      hvalue, hkinds]
  · obtain ⟨⟨_, e', t'⟩, he, rfl, ht⟩ := hw.replay _ hs.enter
    exact ⟨_, .assign (hs.depth ▸ hd) he (ht.store ▸ hwrite), rfl,
      ⟨rfl, congrArg (· - 1) ht.depth⟩⟩

theorem negate {b₀ b : Bool} (hd : s.depth < settings.maxDepth)
    (hw : Within settings n₀ s.enter ⟨.ok v, n', t⟩ xs) (hb : b₀ → b)
    (hb' : b → (Mark.apply .sub b₀ (some 0) (n₀.outline s.store.kinds).value).settled) :
    let a := applySite .sub settings.divisionPrecision b (.fast 0) v
    Within settings (.negate b₀ n₀) s
      ⟨a.result, .negate a.settled n', (t.settling .sub a.failure?).leave⟩
      (xs.map (Visit.below .operand) ++ [⟨[], .sub, .fast 0, v⟩]) := by
  intro a
  have hvalue := hw.value _ rfl
  have hkinds := hw.kinds _ rfl
  simp only [State.store_enter] at hvalue hkinds
  rw [← hvalue, ← Value.toFast?_fast] at hb'
  refine ⟨.negate ?_ hw.node, ?_, ?_, fun s' hs => ?_⟩
  · intro h
    rw [← hvalue]
    exact settled_of_applySite hb' h
  · intro r hr
    simp only [Node.outline]
    rw [← hvalue]
    exact toFast?_of_applySite hb hb' hr
  · intro r hr
    rw [State.store_leave, State.store_settling]
    exact hkinds
  · obtain ⟨⟨_, e', t'⟩, he, rfl, ht⟩ := hw.replay _ hs.enter
    exact ⟨_, .negate (hs.depth ▸ hd) he rfl, (applySite_eq_of_within hb hb').symm,
      (ht.settling ..).leave⟩

/-- The right operand goes on from the kinds that the outline of the left one leaves. -/
theorem binary {op : Operator} {b₀ b : Bool} (hd : s.depth < settings.maxDepth)
    (hw : Within settings l₀ s.enter ⟨.ok v, l', t⟩ xs)
    (hw' : Within settings r₀ t ⟨.ok w, r', u⟩ ys) (hb : b₀ → b)
    (hb' : b → (Mark.apply op b₀ (l₀.outline s.store.kinds).value
      (r₀.outline t.store.kinds).value).settled) :
    let a := applySite op settings.divisionPrecision b v w
    Within settings (.binary op b₀ l₀ r₀) s
      ⟨a.result, .binary op a.settled l' r', (u.settling op a.failure?).leave⟩
      (xs.map (Visit.below .left) ++ (ys.map (Visit.below .right) ++ [⟨[], op, v, w⟩])) := by
  intro a
  have hvalue := hw.value _ rfl
  have hkinds := hw.kinds _ rfl
  have hvalue' := hw'.value _ rfl
  simp only [State.store_enter] at hvalue hkinds
  rw [← hvalue, ← hvalue'] at hb'
  refine ⟨.binary _ ?_ hw.node ?_, ?_, ?_, fun s' hs => ?_⟩
  · intro h
    rw [← hvalue, ← hkinds, ← hvalue']
    exact settled_of_applySite hb' h
  · rw [← hkinds]
    exact hw'.node
  · intro r hr
    simp only [Node.outline]
    rw [← hvalue, ← hkinds, ← hvalue']
    exact toFast?_of_applySite hb hb' hr
  · intro r hr
    rw [State.store_leave, State.store_settling]
    simp only [Node.outline]
    rw [← hkinds]
    exact hw'.kinds _ rfl
  · obtain ⟨⟨_, l', t'⟩, hl, rfl, ht⟩ := hw.replay _ hs.enter
    obtain ⟨⟨_, r', u'⟩, hr, rfl, hu⟩ := hw'.replay _ ht
    exact ⟨_, .binary (hs.depth ▸ hd) hl hr rfl, (applySite_eq_of_within hb hb').symm,
      (hu.settling ..).leave⟩

end Within

/-- A tree between `n₀` and the outline of `n₀` gives what `n₀` gives, coming to the same
sites with the same operands, and it remains within the outline. -/
theorem Evaluates.within {settings : Settings} {n₀ n : Node} {s : State} {o : Outcome}
    {xs : List Visit} (h : Evaluates settings n s o xs) (hlo : n₀.Settles n)
    (hhi : n.Settles (n₀.outline s.store.kinds).node) : Within settings n₀ s o xs := by
  induction h generalizing n₀ with
  | tooDeep hd =>
    refine .of_error hhi fun s' hs => ?_
    exact ⟨_, .tooDeep (hs.depth ▸ hd), rfl, hs⟩
  | fast hd =>
    cases hlo
    refine ⟨hhi, ?_, fun _ _ => rfl, fun s' hs => ?_⟩
    · rintro _ ⟨⟩
      rfl
    · exact ⟨_, .fast (hs.depth ▸ hd), rfl, hs⟩
  | precise hd =>
    cases hlo
    refine ⟨hhi, ?_, fun _ _ => rfl, fun s' hs => ?_⟩
    · rintro _ ⟨⟩
      rfl
    · exact ⟨_, .precise (hs.depth ▸ hd), rfl, hs⟩
  | readFailed hd hread =>
    cases hlo
    refine .of_error hhi fun s' hs => ?_
    exact ⟨_, .readFailed (hs.depth ▸ hd) (hs.store ▸ hread), rfl, hs⟩
  | read hd hread =>
    cases hlo
    refine ⟨hhi, ?_, fun _ _ => rfl, fun s' hs => ?_⟩
    · rintro _ ⟨⟩
      simp only [Node.outline, Store.kinds_of_read hread, Option.join_some]
    · exact ⟨_, .read (hs.depth ▸ hd) (hs.store ▸ hread), rfl, hs.emit _ _⟩
  | assignFailed hd _ ih =>
    cases hlo with | assign _ hlo =>
    cases hhi with | assign _ hhi =>
    have hw := ih hlo hhi
    refine .of_error (.assign _ hw.node) fun s' hs => ?_
    obtain ⟨⟨_, e', t⟩, he, rfl, ht⟩ := hw.replay _ hs.enter
    exact ⟨_, .assignFailed (hs.depth ▸ hd) he, rfl, ht.leave⟩
  | writeFailed hd _ hwrite ih =>
    cases hlo with | assign _ hlo =>
    cases hhi with | assign _ hhi =>
    have hw := ih hlo hhi
    refine .of_error (.assign _ hw.node) fun s' hs => ?_
    obtain ⟨⟨_, e', t⟩, he, rfl, ht⟩ := hw.replay _ hs.enter
    exact ⟨_, .writeFailed (hs.depth ▸ hd) he (ht.store ▸ hwrite), rfl, ht.leave⟩
  | assign hd _ hwrite ih =>
    cases hlo with | assign _ hlo =>
    cases hhi with | assign _ hhi =>
    exact (ih hlo hhi).assign hd hwrite
  | negateFailed hd _ ih =>
    cases hlo with | negate hb hlo =>
    cases hhi with | negate hb' hhi =>
    have hw := ih hlo hhi
    refine .of_error (.negate hb' hw.node) fun s' hs => ?_
    obtain ⟨⟨_, e', t⟩, he, rfl, ht⟩ := hw.replay _ hs.enter
    exact ⟨_, .negateFailed (hs.depth ▸ hd) he, rfl, ht.leave⟩
  | negate hd _ ha ih =>
    cases hlo with | negate hb hlo =>
    cases hhi with | negate hb' hhi =>
    subst ha
    exact (ih hlo hhi).negate hd hb hb'
  | leftFailed hd _ ih =>
    cases hlo with | binary _ hb hlo hlo' =>
    cases hhi with | binary _ hb' hhi hhi' =>
    have hw := ih hlo hhi
    refine .of_error (.binary _ hb' hw.node hhi') fun s' hs => ?_
    obtain ⟨⟨_, l', t⟩, hl, rfl, ht⟩ := hw.replay _ hs.enter
    exact ⟨_, .leftFailed (hs.depth ▸ hd) hl, rfl, ht.leave⟩
  | rightFailed hd _ _ ihl ihr =>
    cases hlo with | binary _ hb hlo hlo' =>
    cases hhi with | binary _ hb' hhi hhi' =>
    have hw := ihl hlo hhi
    have hkinds := hw.kinds _ rfl
    simp only [State.store_enter] at hkinds
    rw [← hkinds] at hhi'
    have hw' := ihr hlo' hhi'
    refine .of_error (.binary _ hb' hw.node ?_) fun s' hs => ?_
    · rw [← hkinds]
      exact hw'.node
    · obtain ⟨⟨_, l', t⟩, hl, rfl, ht⟩ := hw.replay _ hs.enter
      obtain ⟨⟨_, r', u⟩, hr, rfl, hu⟩ := hw'.replay _ ht
      exact ⟨_, .rightFailed (hs.depth ▸ hd) hl hr, rfl, hu.leave⟩
  | binary hd _ _ ha ihl ihr =>
    cases hlo with | binary _ hb hlo hlo' =>
    cases hhi with | binary _ hb' hhi hhi' =>
    have hw := ihl hlo hhi
    have hkinds := hw.kinds _ rfl
    simp only [State.store_enter] at hkinds
    rw [← hkinds] at hhi' hb'
    subst ha
    exact hw.binary hd (ihr hlo' hhi') hb hb'

end AdaptiveCalc
