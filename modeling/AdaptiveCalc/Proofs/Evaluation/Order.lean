import AdaptiveCalc.Proofs.Evaluation.Past
import AdaptiveCalc.Proofs.Evaluation.Writes
import Mathlib.Data.List.Infix

/-!
# The order of reads and writes

The text of a program gives its reads and assignments one order: statement after statement,
the left operand before the right one, an expression before it is assigned. A run goes
through them in this order, each once, and stops where it fails. Settled bits, kinds of
values and settings may decide how far it comes; they never change the order. Main
statement: `run_goes_in_order`.
-/
namespace AdaptiveCalc

/-- A use of a slot in a tree: it is read, or it is assigned the value of an expression. -/
inductive Access where
  | read (slot : ℕ)
  | assign (slot : ℕ) (expr : Node)

def Access.target? : Access → Option ℕ
  | read _ => none
  | assign slot _ => some slot

namespace Node

def accesses : Node → List Access
  | .fast _ | .precise _ => []
  | .read slot => [.read slot]
  | .assign slot e => e.accesses ++ [.assign slot e]
  | .negate _ e => e.accesses
  | .binary _ _ l r => l.accesses ++ r.accesses

def targets : Node → List ℕ
  | .fast _ | .precise _ | .read _ => []
  | .assign slot e => e.targets ++ [slot]
  | .negate _ e => e.targets
  | .binary _ _ l r => l.targets ++ r.targets

theorem filterMap_target?_accesses (n : Node) :
    n.accesses.filterMap Access.target? = n.targets := by
  induction n with
  | fast | precise | read => rfl
  | assign slot e ih => simp [accesses, targets, ih, Access.target?]
  | negate _ e ih => exact ih
  | binary _ _ l r ihl ihr => simp [accesses, targets, ihl, ihr]

theorem filterMap_target?_flatMap_accesses (nodes : List Node) :
    (nodes.flatMap accesses).filterMap Access.target? = nodes.flatMap targets := by
  simp only [List.filterMap_flatMap, filterMap_target?_accesses]

end Node

namespace Program

def accesses (p : Program) : List Access := p.statements.flatMap Node.accesses

def targets (p : Program) : List ℕ := p.statements.flatMap Node.targets

end Program

namespace Event

def isAccess : Event → Bool
  | .read .. | .write .. => true
  | _ => false

theorem write?_eq_none {e : Event} (h : e.isAccess = false) : e.write? = none := by
  cases e <;> first | rfl | cases h

theorem writes_append (es es' : List Event) : writes (es ++ es') = writes es ++ writes es' :=
  List.filterMap_append

end Event

/-- Events that go through some uses of slots one after the other, beginning with the store
`s`. A read gives what its slot holds by then. A write has the value of its expression, in
an evaluation that begins with the store of some moment and is what happens from that moment
to the write. -/
inductive Performs (settings : Settings) (s : Store) : List Event → List Access → Prop
  | nil : Performs settings s [] []
  | other {es : List Event} {as : List Access} {e : Event} (h : Performs settings s es as)
      (he : e.isAccess = false) : Performs settings s (es ++ [e]) as
  | read {es : List Event} {as : List Access} {slot : ℕ} {v : Value} {t : Store}
      (h : Performs settings s es as) (ht : s.writeAll (Event.writes es) = .ok t)
      (hread : t.read slot = .ok v) :
      Performs settings s (es ++ [.read slot v]) (as ++ [.read slot])
  | assign {es during : List Event} {as : List Access} {slot depth : ℕ} {e : Node} {v : Value}
      {t : Store} {demotes : Bool} (h : Performs settings s (es ++ during) as)
      (ht : s.writeAll (Event.writes es) = .ok t)
      (hvalue : (({ store := t, settings, depth } : Interpreter).eval e).result = .ok v)
      (hduring : (({ store := t, settings, depth } : Interpreter).eval e).events = during) :
      Performs settings s (es ++ during ++ [.write slot v demotes]) (as ++ [.assign slot e])

namespace Performs
variable {settings : Settings} {s t : Store} {es es' : List Event} {as as' : List Access}

theorem append (h : Performs settings s es as) (ht : s.writeAll (Event.writes es) = .ok t)
    (h' : Performs settings t es' as') : Performs settings s (es ++ es') (as ++ as') := by
  induction h' with
  | nil => simpa using h
  | other _ he ih =>
    rw [← List.append_assoc]
    exact ih.other he
  | @read es₂ _ _ _ u _ hu hread ih =>
    have hwrites : s.writeAll (Event.writes (es ++ es₂)) = .ok u := by
      rw [Event.writes_append]
      exact Store.writeAll_append ht hu
    rw [← List.append_assoc, ← List.append_assoc]
    exact ih.read hwrites hread
  | @assign es₂ _ _ _ _ _ _ u _ _ hu hvalue hduring ih =>
    have hwrites : s.writeAll (Event.writes (es ++ es₂)) = .ok u := by
      rw [Event.writes_append]
      exact Store.writeAll_append ht hu
    rw [← List.append_assoc, ← List.append_assoc, ← List.append_assoc]
    rw [← List.append_assoc] at ih
    exact ih.assign hwrites hvalue hduring

theorem map_slot_writes (h : Performs settings s es as) :
    (Event.writes es).map Write.slot = as.filterMap Access.target? := by
  induction h with
  | nil => rfl
  | other _ he ih =>
    rw [Event.writes_append, List.map_append, ih]
    simp [Event.writes, Event.write?_eq_none he]
  | read _ _ _ ih =>
    rw [Event.writes_append, List.map_append, ih, List.filterMap_append]
    rfl
  | assign _ _ _ _ ih =>
    rw [Event.writes_append, List.map_append, ih, List.filterMap_append]
    rfl

end Performs

/-- From `s` an evaluation has gone through the uses `as`, and so has come to `t`. -/
def Reaches (settings : Settings) (s t : State) (as : List Access) : Prop :=
  ∃ es, t.history = es.reverse ++ s.history ∧ Performs settings s.store es as ∧
    s.store.writeAll (Event.writes es) = .ok t.store

namespace Reaches
variable {settings : Settings} {s t u : State} {as as' : List Access}

theorem refl (s : State) : Reaches settings s s [] := ⟨[], rfl, .nil, rfl⟩

theorem trans (h : Reaches settings s t as) (h' : Reaches settings t u as') :
    Reaches settings s u (as ++ as') := by
  obtain ⟨es, hes, hperforms, hstore⟩ := h
  obtain ⟨es', hes', hperforms', hstore'⟩ := h'
  refine ⟨es ++ es', ?_, hperforms.append hstore hperforms', ?_⟩
  · rw [hes', hes, List.reverse_append, List.append_assoc]
  · rw [Event.writes_append]
    exact Store.writeAll_append hstore hstore'

theorem emit (h : Reaches settings s t as) {e : Event} (he : e.isAccess = false) :
    Reaches settings s (t.emit e) as := by
  obtain ⟨es, hes, hperforms, hstore⟩ := h
  refine ⟨es ++ [e], by simp [State.emit, hes], hperforms.other he, ?_⟩
  rw [Event.writes_append]
  simpa [Event.writes, Event.write?_eq_none he] using hstore

theorem settling (h : Reaches settings s t as) (op : Operator) (f : Option Fast.Failure) :
    Reaches settings s (t.settling op f) as := by
  cases f with
  | none => exact h
  | some f => exact h.emit rfl

theorem read {slot : ℕ} {v : Value} (hread : s.store.read slot = .ok v) :
    Reaches settings s (s.emit (.read slot v)) [.read slot] :=
  ⟨[.read slot v], rfl, Performs.nil.read rfl hread, rfl⟩

/-- A write comes after the evaluation of its expression, and has its value. -/
theorem assign {e e' : Node} {v : Value} {xs : List Visit} (h : Reaches settings s t as)
    (he : Evaluates settings e s ⟨.ok v, e', t⟩ xs) {slot : ℕ} {store : Store}
    (hwrite : t.store.write slot v = .ok store) (demotes : Bool) :
    Reaches settings s ({ t with store }.emit (.write slot v demotes))
      (as ++ [.assign slot e]) := by
  obtain ⟨es, hes, hperforms, hstore⟩ := h
  obtain ⟨hvalue, -, -, hhistory⟩ := he.eq_eval
  have hevents : ((s.interpreter settings).eval e).events = es := by
    rw [hes, List.append_cancel_right_eq, List.reverse_inj] at hhistory
    exact hhistory.symm
  refine ⟨es ++ [.write slot v demotes], by simp [State.emit, hes], ?_, ?_⟩
  · have hassign : Performs settings s.store ([] ++ es ++ [.write slot v demotes])
        (as ++ [.assign slot e]) := .assign hperforms rfl hvalue.symm hevents
    exact hassign
  · rw [Event.writes_append]
    exact Store.writeAll_append hstore (Store.writeAll_singleton hwrite)

end Reaches

/-- An evaluation that goes through the uses `as` in order, up to where it fails. -/
structure GoesThrough (settings : Settings) (s : State) (result : Except EvalError Value)
    (t : State) (as : List Access) : Prop where
  first : ∃ done, done <+: as ∧ Reaches settings s t done
  all : ∀ v, result = .ok v → Reaches settings s t as

namespace GoesThrough
variable {settings : Settings} {s t : State} {result : Except EvalError Value}
  {as : List Access}

theorem of_reaches (h : Reaches settings s t as) : GoesThrough settings s result t as :=
  ⟨⟨as, List.prefix_rfl, h⟩, fun _ _ => h⟩

theorem of_error {x : EvalError} {done : List Access} (h : Reaches settings s t done)
    (hpre : done <+: as) : GoesThrough settings s (.error x) t as :=
  ⟨⟨done, hpre, h⟩, nofun⟩

theorem after {u : State} (h : GoesThrough settings s result t as)
    (hu : Reaches settings u s []) : GoesThrough settings u result t as := by
  obtain ⟨done, hpre, hdone⟩ := h.first
  exact ⟨⟨done, hpre, hu.trans hdone⟩, fun v hv => hu.trans (h.all v hv)⟩

theorem leave (h : GoesThrough settings s.enter result t as) :
    GoesThrough settings s result t.leave as := ⟨h.first, h.all⟩

/-- After an error there is no coming to what stands behind. -/
theorem append_of_error {x : EvalError} (h : GoesThrough settings s (.error x) t as)
    (rest : List Access) : GoesThrough settings s (.error x) t (as ++ rest) := by
  obtain ⟨done, hpre, hdone⟩ := h.first
  exact .of_error hdone (hpre.trans (List.prefix_append as rest))

end GoesThrough

variable {settings : Settings}

theorem Evaluates.goesThrough {n : Node} {s : State} {o : Outcome} {xs : List Visit}
    (h : Evaluates settings n s o xs) :
    GoesThrough settings s o.result o.state n.accesses := by
  induction h with
  | tooDeep | readFailed => exact .of_error (.refl _) List.nil_prefix
  | fast | precise => exact .of_reaches (.refl _)
  | read _ hread => exact .of_reaches (.read hread)
  | assignFailed _ _ ih => exact ih.leave.append_of_error _
  | writeFailed _ _ _ ih => exact .of_error (ih.all _ rfl) (List.prefix_append ..)
  | assign _ he hwrite ih => exact .of_reaches ((ih.all _ rfl).assign he hwrite _)
  | negateFailed _ _ ih => exact ih.leave
  | negate _ _ _ ih => exact .of_reaches ((ih.all _ rfl).settling ..)
  | leftFailed _ _ ih => exact ih.leave.append_of_error _
  | rightFailed _ _ _ ihl ihr =>
    obtain ⟨done, hpre, hdone⟩ := ihr.first
    exact .of_error ((ihl.all _ rfl).trans hdone) ((List.prefix_append_right_inj _).2 hpre)
  | binary _ _ _ _ ihl ihr =>
    exact .of_reaches (((ihl.all _ rfl).trans (ihr.all _ rfl)).settling ..)

/-- A run of the statements `nodes` from `s` that ends in `e` with its statement `n`, the one
with the number `index`, which it begins in the state `t`. -/
structure EndsAt (settings : Settings) (nodes : List Node) (s : State) (e : Ending)
    (index : ℕ) (n : Node) (t : State) : Prop where
  statement : nodes[index]? = some n
  before : Reaches settings s t ((nodes.take index).flatMap Node.accesses)
  depth : t.depth = s.depth
  here : ∃ n' xs, Evaluates settings n t ⟨e.result, n', e.state⟩ xs ∧
    (e.leading ++ [e.last])[index]? = some n'
  later : (e.leading ++ [e.last]).drop (index + 1) = nodes.drop (index + 1)
  last : ∀ v, e.result = .ok v → index + 1 = nodes.length

theorem EndsAt.of_first {n n' : Node} {rest : List Node} {s : State} {e : Ending} {begins : Event}
    {xs : List Visit} (hbegins : begins.isAccess = false)
    (hn : Evaluates settings n (s.emit begins) ⟨e.result, n', e.state⟩ xs)
    (hnodes : e.leading ++ [e.last] = n' :: rest) (hlast : ∀ v, e.result = .ok v → rest = []) :
    EndsAt settings (n :: rest) s e 0 n (s.emit begins) where
  statement := rfl
  before := (Reaches.refl s).emit hbegins
  depth := rfl
  here := ⟨n', xs, hn, by rw [hnodes]; rfl⟩
  later := by rw [hnodes]; rfl
  last v hv := by rw [hlast v hv]; rfl

theorem Executes.endsAt {index : ℕ} {leading : List Node} {last : Node} {s : State} {e : Ending}
    {xss : List (List Visit)} (h : Executes settings index leading last s e xss) :
    ∃ k n t, EndsAt settings (leading ++ [last]) s e k n t := by
  induction h with
  | last hn => exact ⟨_, _, _, .of_first rfl hn rfl fun _ _ => rfl⟩
  | failed hn => exact ⟨_, _, _, .of_first rfl hn rfl nofun⟩
  | @next index n _ _ _ s _ _ _ _ _ hn _ ih =>
    obtain ⟨k, m, t, hrest⟩ := ih
    have hdone := ((Reaches.refl s).emit (e := .statement index n) rfl).trans
      (hn.goesThrough.all _ rfl)
    exact ⟨k + 1, m, t, {
      statement := hrest.statement
      before := hdone.trans hrest.before
      depth := hrest.depth.trans hn.depth_eq
      here := hrest.here
      later := hrest.later
      last := fun v hv => congrArg (· + 1) (hrest.last v hv) }⟩

theorem EndsAt.goesThrough {nodes : List Node} {s : State} {e : Ending} {index : ℕ} {n : Node}
    {t : State} (h : EndsAt settings nodes s e index n t) :
    GoesThrough settings s e.result e.state
      ((nodes.take (index + 1)).flatMap Node.accesses) := by
  obtain ⟨n', xs, hn, -⟩ := h.here
  obtain ⟨done, hpre, hdone⟩ := hn.goesThrough.first
  have htake : (nodes.take (index + 1)).flatMap Node.accesses =
      (nodes.take index).flatMap Node.accesses ++ n.accesses := by
    rw [List.take_add_one, h.statement]
    simp
  rw [htake]
  exact {
    first := ⟨_, (List.prefix_append_right_inj _).2 hpre, h.before.trans hdone⟩
    all := fun v hv => h.before.trans (hn.goesThrough.all v hv) }

/-- A run that ends with the statement `n`, the one with the number `index`: when it has gone
through all that stands in the statements before, the store is `t`, and the rest of the run is
the evaluation of `n` on this store. The statements behind are left as they are. -/
structure StopsAt (i : Interpreter) (p : Program) (e : Evaluation Program) (index : ℕ) (n : Node)
    (before : List Event) (t : Store) : Prop where
  statement : p.statement? index = some n
  performs : Performs i.settings i.store before ((p.statements.take index).flatMap Node.accesses)
  store : i.store.writeAll (Event.writes before) = .ok t
  result : e.result = ({ i with store := t }.eval n).result
  events : e.events = before ++ ({ i with store := t }.eval n).events
  store_eq : e.interpreter.store = ({ i with store := t }.eval n).interpreter.store
  here : e.subject.statement? index = some ({ i with store := t }.eval n).subject
  later : e.subject.statements.drop (index + 1) = p.statements.drop (index + 1)
  writes : (Event.writes e.events).map Write.slot <+:
    (p.statements.take (index + 1)).flatMap Node.targets
  last : ∀ v, e.result = .ok v → index + 1 = p.size

/-- A run that goes through a program in the order of its text, up to where it fails. -/
structure InOrder (i : Interpreter) (p : Program) (e : Evaluation Program) : Prop where
  performs : ∃ done, done <+: p.accesses ∧ Performs i.settings i.store e.events done
  writes : (Event.writes e.events).map Write.slot <+: p.targets
  store : i.store.writeAll (Event.writes e.events) = .ok e.interpreter.store
  performs_all : ∀ v, e.result = .ok v → Performs i.settings i.store e.events p.accesses
  writes_all : ∀ v, e.result = .ok v → (Event.writes e.events).map Write.slot = p.targets
  stops : ∃ index n before t, StopsAt i p e index n before t

namespace Interpreter

section
variable {i : Interpreter} {t : State} {events : List Event}

theorem performs_of_reaches {as : List Access} (h : Reaches i.settings i.state t as)
    (hevents : t.history = events.reverse) :
    Performs i.settings i.store events as ∧
      i.store.writeAll (Event.writes events) = .ok t.store := by
  obtain ⟨es, hes, hperforms, hstore⟩ := h
  have heq : events = es := by
    rw [hevents] at hes
    exact List.reverse_inj.1 (hes.trans (List.append_nil _))
  rw [heq]
  exact ⟨hperforms, hstore⟩

theorem writes_of_goesThrough {result : Except EvalError Value} {nodes : List Node}
    (h : GoesThrough i.settings i.state result t (nodes.flatMap Node.accesses))
    (hevents : t.history = events.reverse) :
    (Event.writes events).map Write.slot <+: nodes.flatMap Node.targets := by
  obtain ⟨done, hpre, hdone⟩ := h.first
  rw [(performs_of_reaches hdone hevents).1.map_slot_writes,
    ← Node.filterMap_target?_flatMap_accesses]
  exact hpre.filterMap _

end

theorem reaches_begin (i : Interpreter) (p : Program) :
    Reaches i.settings i.state (i.state.emit (.begin p.size)) [] :=
  (Reaches.refl _).emit rfl

theorem stopsAt_run (i : Interpreter) (p : Program) :
    ∃ index n before t, StopsAt i p (i.run p) index n before t := by
  obtain ⟨index, n, t, h⟩ := (i.executes p).endsAt
  obtain ⟨n', xs, hn, hhere⟩ := h.here
  obtain ⟨hperforms, hstore⟩ :=
    performs_of_reaches ((i.reaches_begin p).trans h.before) (List.reverse_reverse _).symm
  obtain ⟨hresult, hnode, hfinal, hhistory⟩ := hn.eq_eval
  have hinterpreter : t.interpreter i.settings = { i with store := t.store } := by
    rw [State.interpreter, h.depth]
    rfl
  rw [hinterpreter] at hresult hnode hfinal hhistory
  exact ⟨index, n, t.history.reverse, t.store, {
    statement := h.statement
    performs := hperforms
    store := hstore
    result := hresult
    events := by simpa using congrArg List.reverse hhistory
    store_eq := hfinal
    here := hhere.trans (congrArg some hnode)
    later := h.later
    writes := writes_of_goesThrough (h.goesThrough.after (i.reaches_begin p)) rfl
    last := fun v hv => (h.last v hv).trans p.length_statements }⟩

theorem goesThrough_run (i : Interpreter) (p : Program) :
    GoesThrough i.settings i.state (i.run p).result
      ⟨(i.run p).interpreter.store, (i.run p).interpreter.depth, (i.run p).events.reverse⟩
      p.accesses := by
  obtain ⟨index, n, t, h⟩ := (i.executes p).endsAt
  obtain ⟨⟨done, hpre, hdone⟩, hall⟩ := h.goesThrough.after (i.reaches_begin p)
  refine ⟨⟨done, hpre.trans ?_, hdone⟩, fun v hv => ?_⟩
  · exact List.IsPrefix.flatMap (List.take_prefix _ _) _
  · have hwhole := hall v hv
    rwa [h.last v hv, List.take_length] at hwhole

end Interpreter

/-- However it ends, a run has done reads and writes in the order of the text and each once,
with the values of that moment, and its writes make up all of the final store. If it fails, it
fails within one statement, and nothing of what stands behind has been done. -/
theorem run_goes_in_order (i : Interpreter) (p : Program) : InOrder i p (i.run p) := by
  have h := i.goesThrough_run p
  obtain ⟨done, hpre, hdone⟩ := h.first
  have hall : ∀ v, (i.run p).result = .ok v →
      Performs i.settings i.store (i.run p).events p.accesses :=
    fun v hv => (Interpreter.performs_of_reaches (h.all v hv) rfl).1
  exact {
    performs := ⟨done, hpre, (Interpreter.performs_of_reaches hdone rfl).1⟩
    writes := Interpreter.writes_of_goesThrough h rfl
    store := i.writeAll_run p
    performs_all := hall
    writes_all := fun v hv => by
      rw [(hall v hv).map_slot_writes]
      exact Node.filterMap_target?_flatMap_accesses p.statements
    stops := i.stopsAt_run p }

/-- The second operand of the last statement fails, after its first operand has been assigned. -/
example :
    let e := ({ store := ⟨#[{ name := "x" }, { name := "y" }]⟩ } : Interpreter).run
      ⟨[.assign 0 (.binary .add false (.assign 1 (.fast 1)) (.fast 2))],
        .assign 0 (.binary .mul false (.assign 1 (.read 0))
          (.binary .div false (.fast 1) (.fast 0)))⟩
    Event.writes e.events = [⟨1, .fast 1⟩, ⟨0, .fast 3⟩, ⟨1, .fast 3⟩] := by
  decide +kernel

end AdaptiveCalc
