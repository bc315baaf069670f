import AdaptiveCalc.Proofs.Outline

/-!
# Running a program again

Settled bits outlive a run, so a run may find bits that an earlier one has set, with
another precision, another depth, and perhaps an error in the midst of it. As long as all
of them were started on the same store, the run gives what it would have given on the
program as it was in the beginning. Main statement: `reruns_agree`.
-/
namespace AdaptiveCalc
namespace Program

/-- The program of some statements after their outlines, each from the kinds that the one
before it leaves. -/
def outlineFrom (leading : List Node) (last : Node) (K : Kinds) : Program :=
  match leading with
  | [] => ⟨[], (last.outline K).node⟩
  | n :: rest =>
    let q := outlineFrom rest last (n.outline K).kinds
    ⟨(n.outline K).node :: q.leading, q.last⟩

def outline (p : Program) (K : Kinds) : Program := outlineFrom p.leading p.last K

theorem settles_outline (p : Program) (K : Kinds) : p.Settles (p.outline K) := by
  obtain ⟨leading, last⟩ := p
  unfold outline
  dsimp only
  induction leading generalizing K with
  | nil => exact ⟨.nil, last.settles_outline K⟩
  | cons n rest ih =>
    obtain ⟨hleading, hlast⟩ := ih (n.outline K).kinds
    exact ⟨.cons (n.settles_outline K) hleading, hlast⟩

end Program

/-- A run of statements between the original ones and their outlines stays there, and the
original statements repeat it. -/
theorem Executes.within {settings : Settings} {index : ℕ} {leading₀ leading : List Node}
    {last₀ last : Node} {s : State} {e : Ending} {xss : List (List Visit)}
    (h : Executes settings index leading last s e xss)
    (hlo : Program.Settles ⟨leading₀, last₀⟩ ⟨leading, last⟩)
    (hhi : Program.Settles ⟨leading, last⟩ (.outlineFrom leading₀ last₀ s.store.kinds)) :
    Program.Settles ⟨e.leading, e.last⟩ (.outlineFrom leading₀ last₀ s.store.kinds) ∧
      ∀ s', s.Alike s' → ∃ e', Executes settings index leading₀ last₀ s' e' xss ∧
        e'.result = e.result ∧ e.state.Alike e'.state := by
  induction h generalizing leading₀ last₀ with
  | last hn =>
    obtain ⟨hleading, hlast⟩ := hlo
    cases hleading
    have hw := hn.within hlast hhi.last
    refine ⟨⟨.nil, hw.node⟩, fun s' hs => ?_⟩
    obtain ⟨⟨r, n', t⟩, hn', hr, ht⟩ := hw.replay _ (hs.emit _ (.resultStatement last₀))
    exact ⟨_, .last hn', hr, ht⟩
  | failed hn =>
    obtain ⟨hleading, hlast⟩ := hlo
    obtain ⟨hleading', hlast'⟩ := hhi
    cases hleading with | @cons n₀ _ rest₀ _ hn₀ hrest =>
    cases hleading' with | cons hn₁ hrest' =>
    have hw := hn.within hn₀ hn₁
    refine ⟨⟨.cons hw.node hrest', hlast'⟩, fun s' hs => ?_⟩
    obtain ⟨⟨_, n', t⟩, hn', rfl, ht⟩ := hw.replay _ (hs.emit _ (.statement _ n₀))
    exact ⟨_, .failed hn', rfl, ht⟩
  | next hn _ ih =>
    obtain ⟨hleading, hlast⟩ := hlo
    obtain ⟨hleading', hlast'⟩ := hhi
    cases hleading with | @cons n₀ _ rest₀ _ hn₀ hrest =>
    cases hleading' with | cons hn₁ hrest' =>
    have hw := hn.within hn₀ hn₁
    have hkinds := hw.kinds _ rfl
    simp only [State.store_emit] at hkinds
    simp only [Program.outlineFrom] at hlast' ⊢
    rw [← hkinds] at hrest' hlast'
    obtain ⟨⟨hleading'', hlast''⟩, hreplay⟩ := ih ⟨hrest, hlast⟩ ⟨hrest', hlast'⟩
    rw [hkinds] at hleading'' hlast''
    refine ⟨⟨.cons hw.node hleading'', hlast''⟩, fun s' hs => ?_⟩
    obtain ⟨⟨_, n', t⟩, hn', rfl, ht⟩ := hw.replay _ (hs.emit _ (.statement _ n₀))
    obtain ⟨e', he', hr, hstate⟩ := hreplay _ ht
    exact ⟨_, .next hn' he', hr, hstate⟩

theorem Program.result_runOnce_eq {S : Store} {settings : Settings} {p q : Program}
    (h : (({ store := S, settings } : Interpreter).run p).result =
      (({ store := S, settings } : Interpreter).run q).result) :
    (p.runOnce S settings).result = (q.runOnce S settings).result := by
  unfold runOnce
  cases hvalid : settings.validate with
  | error e => rfl
  | ok settings' =>
    obtain ⟨rfl, -⟩ := Settings.validate_eq_ok_iff.1 hvalid
    simp only [Evaluation.text, h]

/-- The programs that runs from copies of `S` may leave in the place of `p₀`, on new
interpreters with any settings, and single runs whose settings may be refused. -/
inductive Reruns (S : Store) (p₀ : Program) : Program → Prop
  | start : Reruns S p₀ p₀
  | run {p : Program} (settings : Settings) (h : Reruns S p₀ p) :
      Reruns S p₀ (({ store := S, settings } : Interpreter).run p).subject
  | runOnce {p : Program} (settings : Settings) (h : Reruns S p₀ p) :
      Reruns S p₀ (p.runOnce S settings).program

section
variable {p₀ p : Program} {i : Interpreter}

theorem Interpreter.run_within (hlo : p₀.Settles p)
    (hhi : p.Settles (p₀.outline i.store.kinds)) :
    (i.run p).subject.Settles (p₀.outline i.store.kinds) ∧
      (i.run p).result = (i.run p₀).result ∧
      (i.run p).interpreter.store = (i.run p₀).interpreter.store ∧ i.visits p = i.visits p₀ := by
  obtain ⟨hnode, hreplay⟩ := (i.executes p).within hlo hhi
  obtain ⟨e, he, hresult, halike⟩ := hreplay (i.state.emit (.begin p₀.size)) ⟨rfl, rfl⟩
  obtain ⟨rfl, hvisits⟩ := he.unique (i.executes p₀)
  exact ⟨hnode, hresult.symm, halike.store.symm, hvisits⟩

end

theorem Reruns.between {S : Store} {p₀ p : Program} (h : Reruns S p₀ p) :
    p₀.Settles p ∧ p.Settles (p₀.outline S.kinds) := by
  induction h with
  | start => exact ⟨.refl p₀, p₀.settles_outline S.kinds⟩
  | @run p settings _ ih =>
    obtain ⟨hlo, hhi⟩ := ih
    exact ⟨hlo.trans (Interpreter.executes _ p).settles, (Interpreter.run_within hlo hhi).1⟩
  | @runOnce p settings _ ih =>
    unfold Program.runOnce
    cases settings.validate with
    | error e => exact ih
    | ok settings =>
      obtain ⟨hlo, hhi⟩ := ih
      exact ⟨hlo.trans (Interpreter.executes _ p).settles, (Interpreter.run_within hlo hhi).1⟩

/-- A run that is repeated finds nothing more to settle. -/
theorem Interpreter.subject_run_subject (i : Interpreter) (p : Program) :
    (i.run (i.run p).subject).subject = (i.run p).subject := by
  have hlo : p.Settles (i.run p).subject := (i.executes p).settles
  obtain ⟨hhi, -⟩ := Interpreter.run_within (i := i) (.refl p) (p.settles_outline i.store.kinds)
  obtain ⟨-, -, -, hvisits⟩ := Interpreter.run_within hlo hhi
  have hsecond := i.executes (i.run p).subject
  rw [hvisits] at hsecond
  obtain ⟨hleading, hlast⟩ := (i.executes p).subject_eq hsecond
  have hext : ∀ q q' : Program, q.leading = q'.leading → q.last = q'.last → q = q' := by
    rintro ⟨_, _⟩ ⟨_, _⟩ rfl rfl
    rfl
  exact hext _ _ hleading hlast

/-- However often a program has been run from copies of one store, with whatever settings
and endings, the next run from there has the result that it has on the original program,
and leaves the same store; and a run that is repeated settles nothing more. -/
theorem reruns_agree {S : Store} {p₀ p : Program} (h : Reruns S p₀ p) (settings : Settings) :
    let i : Interpreter := { store := S, settings }
    let j : Interpreter := { store := S.fresh, settings }
    (i.run p).result = (i.run p₀).result ∧
      (i.run p).interpreter.store = (i.run p₀).interpreter.store ∧
      (p.runOnce S settings).result = (p₀.runOnce S settings).result ∧
      (i.run (i.run p).subject).subject = (i.run p).subject ∧
      (j.run (j.run p).subject).text = (j.run p).text ∧
      (j.run (j.run p).subject).subject = (j.run p).subject := by
  intro i j
  obtain ⟨hlo, hhi⟩ := h.between
  obtain ⟨-, hresult, hstore, -⟩ := Interpreter.run_within (i := i) hlo hhi
  refine ⟨hresult, hstore, ?_, i.subject_run_subject p, ?_, j.subject_run_subject p⟩
  · exact Program.result_runOnce_eq hresult
  · have hsecond : Reruns S.fresh p (j.run p).subject := .run settings .start
    obtain ⟨hlo', hhi'⟩ := hsecond.between
    obtain ⟨-, hresult', -⟩ := Interpreter.run_within (i := j) hlo' hhi'
    exact congrArg (·.map Value.text) hresult'

def Program.oneThird : Program := ⟨[], .binary .div false (.fast 1) (.fast 3)⟩

/-- A run to one digit settles the division, and a refused single run does nothing to it. -/
theorem reruns_agree_oneThird :
    let coarse : Interpreter := { settings := { divisionPrecision := 1 } }
    let p := ((coarse.run .oneThird).subject.runOnce {} { divisionPrecision := 101 }).program
    Reruns {} .oneThird p ∧ p ≠ .oneThird ∧
      (({} : Interpreter).run p).result = (({} : Interpreter).run .oneThird).result := by
  have h : Reruns {} .oneThird _ :=
    .runOnce { divisionPrecision := 101 } (.run { divisionPrecision := 1 } .start)
  exact ⟨h, by decide +kernel, (reruns_agree h {}).1⟩

end AdaptiveCalc
