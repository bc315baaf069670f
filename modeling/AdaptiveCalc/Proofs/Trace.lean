import AdaptiveCalc.Proofs.Evaluation.Logs
import AdaptiveCalc.Proofs.SiteHistory
import AdaptiveCalc.Proofs.Store.History

/-!
# The log of a run

The log of a run tells which statements were begun, which sites settled and which slots went
from integers to decimals, each at the time when it happened, and nothing else. Over all the
runs of a program a site is in the log at most once, and so is a slot over all the runs on a
store, whatever else is done to them between the runs. Main statement: `log_tells_changes`.
-/
namespace AdaptiveCalc

/-- A stage together with the changes that it logs. -/
structure LoggedStage extends Stage where
  changes : List Change
  logs : toStage.Logs changes

/-- The record of a statement that begins; the last one has the number `last`. -/
def Record.beginning (last index : ℕ) (n : Node) : Record :=
  if index = last then ⟨.trace, "result statement", [("statement", .text n.text)]⟩
  else ⟨.trace, "statement", [("index", .count index), ("statement", .text n.text)]⟩

def LoggedStage.records (last : ℕ) : LoggedStage × ℕ → List Record
  | (x, index) => .beginning last index x.statement :: x.changes.map Change.record

def loggedSites (log : List LoggedStage) : List Site :=
  log.zipIdx.flatMap fun (x, index) => (settledPaths x.changes).map (Site.mk index)

def loggedSlots (log : List LoggedStage) : List ℕ := log.flatMap (demotedSlots ·.changes)

/-- A log that tells stage by stage what a run changes. -/
structure TellsOf (i : Interpreter) (p : Program) (log : List LoggedStage) : Prop where
  stages : log.map LoggedStage.toStage = i.stages p.statements
  run : ConsistsOf p (i.run p) (i.stages p.statements)
  records : records (i.run p).events =
    ⟨.span, "run", [("statements", .count p.statements.length)]⟩ ::
      log.zipIdx.flatMap (LoggedStage.records p.leading.length)
  mem_loggedSites_iff : ∀ site, site ∈ loggedSites log ↔
    p.settledAt? site = some false ∧ (i.run p).subject.settledAt? site = some true

/-! ### Records -/

theorem records_cons_of_some {e : Event} {r : Record} (h : e.record? = some r)
    (es : List Event) : records (e :: es) = r :: records es :=
  List.filterMap_cons_some h

theorem record?_beginning (last index : ℕ) (n : Node) :
    (Event.beginning last index n).record? = some (.beginning last index n) := by
  unfold Event.beginning Record.beginning
  split <;> rfl

theorem records_eventsFrom (last index : ℕ) (log : List LoggedStage) :
    records (Stage.eventsFrom last index (log.map LoggedStage.toStage)) =
      (log.zipIdx index).flatMap (LoggedStage.records last) := by
  induction log generalizing index with
  | nil => rfl
  | cons x log ih =>
    rw [List.map_cons, Stage.eventsFrom_cons, List.zipIdx_cons, List.flatMap_cons, ← ih,
      LoggedStage.records, ← x.logs.records, List.cons_append, ← records_append,
      records_cons_of_some (record?_beginning ..)]

/-! ### Sites -/

theorem mem_loggedSites {log : List LoggedStage} {site : Site} :
    site ∈ loggedSites log ↔
      ∃ x, log[site.statement]? = some x ∧ site.path ∈ settledPaths x.changes := by
  simp only [loggedSites, List.mem_flatMap, List.mem_map, Prod.exists,
    List.mk_mem_zipIdx_iff_getElem?]
  constructor
  · rintro ⟨x, index, hx, path, hpath, rfl⟩
    exact ⟨x, hx, hpath⟩
  · rintro ⟨x, hx, hpath⟩
    exact ⟨x, site.statement, hx, site.path, hpath, rfl⟩

theorem nodup_loggedSites (log : List LoggedStage) : (loggedSites log).Nodup := by
  rw [loggedSites, List.nodup_flatMap]
  constructor
  · rintro ⟨x, index⟩ -
    exact x.logs.sites.nodup.map fun path path' heq => (Site.mk.inj heq).2
  · have hindices : (log.zipIdx.map Prod.snd).Nodup := by
      rw [List.zipIdx_map_snd]
      exact List.nodup_range'
    rw [List.Nodup, List.pairwise_map] at hindices
    refine hindices.imp fun {a b} hne => ?_
    intro site ha hb
    obtain ⟨path, -, rfl⟩ := List.mem_map.1 ha
    obtain ⟨path', -, heq⟩ := List.mem_map.1 hb
    exact hne (Site.mk.inj heq).1.symm

namespace Interpreter

theorem exists_log (i : Interpreter) (nodes : List Node) :
    ∃ log : List LoggedStage, log.map LoggedStage.toStage = i.stages nodes := by
  induction i.stages nodes with
  | nil => exact ⟨[], rfl⟩
  | cons x xs ih =>
    obtain ⟨cs, hlogs⟩ := x.exists_logs
    obtain ⟨log, hlog⟩ := ih
    exact ⟨⟨x, cs, hlogs⟩ :: log, congrArg (x :: ·) hlog⟩

theorem mem_loggedSites_iff {i : Interpreter} {p : Program} {log : List LoggedStage}
    (hstages : log.map LoggedStage.toStage = i.stages p.statements) (site : Site) :
    site ∈ loggedSites log ↔
      p.settledAt? site = some false ∧ (i.run p).subject.settledAt? site = some true := by
  have hrun := i.consistsOf_run p
  have hstage : (i.stages p.statements)[site.statement]? =
      log[site.statement]?.map LoggedStage.toStage := by
    rw [← hstages, List.getElem?_map]
  rw [mem_loggedSites, Program.settledAt?, Program.settledAt?]
  cases hx : log[site.statement]? with
  | none =>
    rw [hx] at hstage
    rw [hrun.statement?_of_none hstage]
    constructor
    · rintro ⟨x, hnone, -⟩
      cases hnone
    · rintro ⟨hclear, hset⟩
      cases hclear.symm.trans hset
  | some x =>
    rw [hx] at hstage
    have hbefore : p.statement? site.statement = some x.statement := getElem?_of_stages hstage
    rw [hbefore, hrun.statement?_of_some hstage]
    simp only [Option.some.injEq, exists_eq_left', Option.bind_some]
    exact x.logs.mem_settledPaths_iff

/-- Every run has a log that tells of it. -/
theorem exists_tellsOf (i : Interpreter) (p : Program) : ∃ log, TellsOf i p log := by
  have hrun := i.consistsOf_run p
  obtain ⟨log, hlog⟩ := i.exists_log p.statements
  refine ⟨log, hlog, hrun, ?_, mem_loggedSites_iff hlog⟩
  rw [hrun.events, ← hlog, records_cons_of_some rfl, records_eventsFrom, Program.length_statements]

end Interpreter

/-! ### What is not taken back -/

namespace Program
variable {p : Program} {site : Site}

def IsSettled (p : Program) (site : Site) : Prop := p.settledAt? site = some true

def LeadsTo (p q : Program) : Prop := ∃ calls : List Call, q = p.callAll calls

theorem IsSettled.call (h : p.IsSettled site) (c : Call) : (p.call c).IsSettled site := by
  obtain ⟨b, hb, hstays⟩ := settledAt?_call h c
  rw [hstays rfl] at hb
  exact hb

theorem IsSettled.leadsTo {q : Program} (h : p.IsSettled site) (hq : p.LeadsTo q) :
    q.IsSettled site := by
  obtain ⟨calls, rfl⟩ := hq
  induction calls generalizing p with
  | nil => exact h
  | cons c calls ih => exact ih (h.call c)

end Program

namespace Store
variable {s : Store} {slot : ℕ}

/-- Calls lead from one store to the other, and it is not made fresh. -/
def LeadsTo (s t : Store) : Prop :=
  ∃ calls : List Call, .fresh ∉ calls ∧ t = (calls.foldl History.call { store := s }).store

theorem IsPrecise.lt_size (h : s.IsPrecise slot) : slot < s.size := by
  by_contra hle
  rw [IsPrecise, kind?, contents?_eq_none_iff.2 (Nat.not_lt.1 hle)] at h
  cases h

theorem IsPrecise.extended (h : s.IsPrecise slot) (name : String) :
    (s.extended name).IsPrecise slot := by
  have hslot := h.lt_size
  rw [IsPrecise, kind?, contents?_extended, if_neg (Nat.ne_of_lt hslot)]
  exact h

theorem IsPrecise.writeAll {t : Store} {ws : List Write} (h : s.IsPrecise slot)
    (hwrites : s.writeAll ws = .ok t) : t.IsPrecise slot := by
  induction ws generalizing s with
  | nil =>
    cases hwrites
    exact h
  | cons w ws ih =>
    obtain ⟨u, hw, hrest⟩ := writeAll_cons_eq_ok hwrites
    exact ih (h.write hw) hrest

theorem IsPrecise.becomes {h h' : History} {c : Call} (hslot : h.store.IsPrecise slot)
    (hb : h.Becomes c h') (hc : c ≠ .fresh) : h'.store.IsPrecise slot := by
  cases hb with
  | same => exact hslot
  | declared => exact hslot.extended _
  | wrote _ hwrites => exact hslot.writeAll hwrites
  | fresh => exact absurd rfl hc

theorem IsPrecise.foldl {h : History} (hslot : h.store.IsPrecise slot) {calls : List Call}
    (hfresh : .fresh ∉ calls) : (calls.foldl History.call h).store.IsPrecise slot := by
  induction calls generalizing h with
  | nil => exact hslot
  | cons c calls ih =>
    rw [List.mem_cons, not_or] at hfresh
    exact ih (hslot.becomes (h.becomes_call c) (Ne.symm hfresh.1)) hfresh.2

theorem IsPrecise.leadsTo {t : Store} (h : s.IsPrecise slot) (ht : s.LeadsTo t) :
    t.IsPrecise slot := by
  obtain ⟨calls, hfresh, rfl⟩ := ht
  exact IsPrecise.foldl h hfresh

end Store

/-! ### Sequences of runs -/

namespace TellsOf
variable {i : Interpreter} {p : Program} {log : List LoggedStage}

theorem sites (h : TellsOf i p log) :
    Marks p.IsSettled (i.run p).subject.IsSettled (loggedSites log) where
  nodup := nodup_loggedSites log
  fresh site hsite hset := by
    cases ((h.mem_loggedSites_iff site).1 hsite).1.symm.trans hset
  marked site hsite := ((h.mem_loggedSites_iff site).1 hsite).2
  keeps site hset := hset.call (.run i)

theorem slots (h : TellsOf i p log) :
    Marks i.store.IsPrecise (i.run p).interpreter.store.IsPrecise (loggedSlots log) := by
  obtain ⟨last, hlast, -, hend⟩ := h.run.ending
  have hchain := i.isChain_stages p.statements
  have hfirst := fun x => @i.interpreter_of_head?_stages p.statements x
  rw [← h.stages] at hlast hchain hfirst
  cases log with
  | nil => cases hlast
  | cons x log =>
    have hmarks := Marks.flatMap x log (fun x _ => x.logs.slots)
      (((List.isChain_map _).1 hchain).imp fun x y heq slot hslot => by rwa [heq])
    rw [List.getLast?_map, List.getLast?_eq_some_getLast (List.cons_ne_nil x log)] at hlast
    rw [hend, ← Option.some.inj hlast, ← hfirst x.toStage rfl]
    exact hmarks

end TellsOf

structure LoggedRun where
  interpreter : Interpreter
  program : Program
  log : List LoggedStage
  tells : TellsOf interpreter program log

def LoggedRun.evaluation (r : LoggedRun) : Evaluation Program := r.interpreter.run r.program

/-- No site is logged twice over the runs of a program. -/
theorem LoggedRun.nodup_sites {runs : List LoggedRun}
    (h : runs.IsChain fun r r' => r.evaluation.subject.LeadsTo r'.program) :
    (runs.flatMap fun r => loggedSites r.log).Nodup := by
  cases runs with
  | nil => exact List.nodup_nil
  | cons r runs =>
    have hmarks := Marks.flatMap r runs (fun r _ => r.tells.sites)
      (h.imp fun r r' hleads site hset => hset.leadsTo hleads)
    exact hmarks.nodup

theorem LoggedRun.nodup_slots {runs : List LoggedRun}
    (h : runs.IsChain fun r r' => r.evaluation.interpreter.store.LeadsTo r'.interpreter.store) :
    (runs.flatMap fun r => loggedSlots r.log).Nodup := by
  cases runs with
  | nil => exact List.nodup_nil
  | cons r runs =>
    have hmarks := Marks.flatMap r runs (fun r _ => r.tells.slots)
      (h.imp fun r r' hleads slot hslot => hslot.leadsTo hleads)
    exact hmarks.nodup

/-- Of every run the log tells what it begins and what it changes, in order. Over runs of one
program no site is logged twice, on whatever interpreters they are, and over runs on one store
no slot is logged twice, of whatever programs they are. There may be other calls on the
program or the store between the runs, as long as the store is not made fresh. -/
theorem log_tells_changes :
    (∀ (i : Interpreter) (p : Program), ∃ log, TellsOf i p log) ∧
    (∀ runs : List LoggedRun,
      (runs.IsChain fun r r' => r.evaluation.subject.LeadsTo r'.program) →
        (runs.flatMap fun r => loggedSites r.log).Nodup) ∧
    ∀ runs : List LoggedRun,
      (runs.IsChain fun r r' => r.evaluation.interpreter.store.LeadsTo r'.interpreter.store) →
        (runs.flatMap fun r => loggedSlots r.log).Nodup :=
  ⟨Interpreter.exists_tellsOf, fun _ h => LoggedRun.nodup_sites h,
    fun _ h => LoggedRun.nodup_slots h⟩

/-- Seven is halved: the division settles and the slot is demoted. A second run of the program
on the store, in which an integer has been written to the slot again, tells of neither. -/
theorem log_tells_changes_twice :
    let i : Interpreter := { store := ⟨#[{ name := "x", contents := .fast 7 }]⟩ }
    let p : Program := ⟨[.assign 0 (.binary .div false (.read 0) (.fast 2))], .read 0⟩
    ∃ r r' : LoggedRun, r.interpreter = i ∧ r.program = p ∧
      r.evaluation.interpreter.store.write 0 (.fast 5) = .ok r'.interpreter.store ∧
      r'.program = r.evaluation.subject ∧ ⟨0, [.expr]⟩ ∈ loggedSites r.log ∧
      ([r, r'].flatMap fun r => loggedSites r.log).Nodup ∧
      ([r, r'].flatMap fun r => loggedSlots r.log).Nodup := by
  intro i p
  obtain ⟨t, ht⟩ : ∃ t, (i.run p).interpreter.store.write 0 (.fast 5) = .ok t :=
    Store.exists_write_of_lt (by decide +kernel) _
  obtain ⟨log, htells⟩ := log_tells_changes.1 i p
  obtain ⟨log', htells'⟩ := log_tells_changes.1 { store := t } (i.run p).subject
  have hleads : (i.run p).interpreter.store.LeadsTo t :=
    ⟨[.write 0 (.fast 5)], by simp, by simp [Store.History.call, ht]⟩
  refine ⟨⟨_, _, log, htells⟩, ⟨_, _, log', htells'⟩, rfl, rfl, ht, rfl, ?_,
    log_tells_changes.2.1 _ (.cons_cons ⟨[], rfl⟩ (.singleton _)),
    log_tells_changes.2.2 _ (.cons_cons hleads (.singleton _))⟩
  rw [htells.mem_loggedSites_iff]
  decide +kernel

/-- The whole of the first log. -/
example : records (({ store := ⟨#[{ name := "x", contents := .fast 7 }]⟩ } : Interpreter).run
      ⟨[.assign 0 (.binary .div false (.read 0) (.fast 2))], .read 0⟩).events =
    [⟨.span, "run", [("statements", .count 2)]⟩,
      ⟨.trace, "statement", [("index", .count 0), ("statement", .text "$0 = ($0 / 2)")]⟩,
      ⟨.debug, "binary node settled on precise arithmetic",
        [("op", .text "/"), ("failure", .text "inexact quotient")]⟩,
      ⟨.trace, "demoting slot to precise", [("slot", .count 0)]⟩,
      ⟨.trace, "result statement", [("statement", .text "$0")]⟩] := by
  decide +kernel

end AdaptiveCalc
