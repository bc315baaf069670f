import AdaptiveCalc.Interpreter
import AdaptiveCalc.Proofs.Settings.Lines
import Mathlib.Logic.Function.Basic

/-!
# What settings documents say

A document that sets each option at most once is read as what it says, whichever lines come
first and whatever silent lines stand among them. Anything else that a line may assign makes
it malformed. The precision is looked at last, so a document that is malformed is so whatever
its precision. Main statement: `documents_are_read`.
-/
namespace AdaptiveCalc.Settings
namespace Document

/-- A text consists of these lines. Each of them but the last ends with a line feed, which may
have a carriage return before it. -/
inductive Lines : List (List Char) → List Char → Prop
  | last {line : List Char} (hline : '\n' ∉ line ∧ '\r' ∉ line) : Lines [line] line
  | feed {line text : List Char} {lines : List (List Char)} (hline : '\n' ∉ line ∧ '\r' ∉ line)
      (hrest : Lines lines text) : Lines (line :: lines) (line ++ '\n' :: text)
  | returnFeed {line text : List Char} {lines : List (List Char)}
      (hline : '\n' ∉ line ∧ '\r' ∉ line) (hrest : Lines lines text) :
      Lines (line :: lines) (line ++ '\r' :: '\n' :: text)

/-- Lines that set these options, each of them in one line, and say nothing else. -/
inductive Says : (Key → Option ℤ) → List (List Char) → Prop
  | nil : Says (fun _ => none) []
  | silent {values : Key → Option ℤ} {line : List Char} {lines : List (List Char)}
      (hline : IsSilent line) (hrest : Says values lines) : Says values (line :: lines)
  | sets {values : Key → Option ℤ} {key : Key} {z : ℤ} {line : List Char}
      {lines : List (List Char)} (hline : Sets key z line) (hnew : values key = none)
      (hrest : Says values lines) : Says (Function.update values key (some z)) (line :: lines)

/-! ### Lines -/

section
variable {line text : List Char} {lines : List (List Char)}

theorem cutLines_append (h : '\n' ∉ line ∧ '\r' ∉ line) (begun rest : List Char) :
    cutLines begun (line ++ rest) = cutLines (line.reverse ++ begun) rest := by
  induction line generalizing begun with
  | nil => rfl
  | cons c line ih =>
    simp only [List.mem_cons, not_or] at h
    obtain ⟨⟨hfeed, hline⟩, hreturn, hline'⟩ := h
    have hfeed := Ne.symm hfeed
    have hreturn := Ne.symm hreturn
    rw [List.cons_append, List.reverse_cons, List.append_assoc, List.singleton_append,
      ← ih ⟨hline, hline'⟩]
    simp [cutLines, hreturn]

theorem Lines.cutLines_eq (h : Lines lines text) : cutLines [] text = lines := by
  induction h with
  | @last line hline =>
    have hcut := cutLines_append hline [] []
    simpa [cutLines] using hcut
  | feed hline _ ih => simp [cutLines_append hline, cutLines, ih]
  | returnFeed hline _ ih => simp [cutLines_append hline, cutLines, ih]

theorem Lines.lines_eq (h : Lines lines text) (hmark : ∀ line ∈ lines, '\uFEFF' ∉ line.head?) :
    Document.lines text = lines := by
  unfold Document.lines
  split
  · next rest =>
    generalize htext : '\uFEFF' :: rest = text at h
    cases h with
    | last => exact absurd (by simp [← htext]) (hmark _ List.mem_cons_self)
    | @feed line | @returnFeed line =>
      have hfirst := hmark line List.mem_cons_self
      cases line with
      | nil => cases htext
      | cons c line => exact absurd (by rw [← (List.cons.inj htext).1]; rfl) hfirst
  · exact h.cutLines_eq

theorem mark_notMem_of_isSilent (h : IsSilent line) : '\uFEFF' ∉ line.head? := by
  intro hmark
  rcases h.head hmark with h | h <;> cases h

theorem mark_notMem_of_assigns {name value : List Char} (h : Assigns name line value)
    (hname : IsBare name) : '\uFEFF' ∉ line.head? := by
  intro hmark
  cases h with
  | @intro gaps _ _ _ hgaps hspelling _ =>
    cases gaps with
    | cons gap gaps =>
      cases hmark
      rcases hgaps _ List.mem_cons_self with h | h <;> cases h
    | nil =>
      obtain ⟨c, rest, rfl, hc⟩ := hspelling.exists_cons hname
      cases hmark
      exact ne_of_begins_name hc rfl (by decide) rfl

end

section
variable {values : Key → Option ℤ} {lines : List (List Char)}

/-- A line that sets an option assigns to its name. -/
theorem Says.silent_or_assigns (h : Says values lines) {line : List Char} (hline : line ∈ lines) :
    IsSilent line ∨ ∃ name value, IsBare name ∧ Assigns name line value := by
  induction h with
  | nil => cases hline
  | silent hsilent _ ih =>
    rcases List.mem_cons.1 hline with rfl | hline
    · exact .inl hsilent
    · exact ih hline
  | @sets _ key _ _ _ hsets _ _ ih =>
    rcases List.mem_cons.1 hline with rfl | hline
    · obtain ⟨value, hassigns⟩ := hsets.assignsTo
      exact .inr ⟨_, value, isBare_name key, hassigns⟩
    · exact ih hline

theorem Says.mark_notMem (h : Says values lines) {line : List Char} (hline : line ∈ lines) :
    '\uFEFF' ∉ line.head? := by
  rcases h.silent_or_assigns hline with hsilent | ⟨name, value, hname, hassigns⟩
  · exact mark_notMem_of_isSilent hsilent
  · exact mark_notMem_of_assigns hassigns hname

theorem Says.exists_assigns (h : Says values lines) {key : Key} (hkey : (values key).isSome) :
    ∃ line ∈ lines, AssignsTo key line := by
  induction h with
  | nil => cases hkey
  | silent _ _ ih =>
    obtain ⟨line, hline, hassigns⟩ := ih hkey
    exact ⟨line, .tail _ hline, hassigns⟩
  | @sets _ key' _ line _ hsets _ _ ih =>
    by_cases hsame : key = key'
    · exact ⟨line, List.mem_cons_self, hsame ▸ hsets.assignsTo⟩
    · rw [Function.update_of_ne hsame] at hkey
      obtain ⟨line, hline, hassigns⟩ := ih hkey
      exact ⟨line, .tail _ hline, hassigns⟩

end

/-! ### Drafts -/

def Draft.value? (d : Draft) : Key → Option ℤ
  | .divisionPrecision => d.precision?
  | .maxDepth => d.depth?

section
variable {d d' : Draft} {key : Key} {z : ℤ} {line : List Char} {lines : List (List Char)}

theorem Draft.set?_eq_some (h : d.set? key z = some d') :
    d.value? key = none ∧ d'.value? = Function.update d.value? key (some z) := by
  obtain ⟨precision?, depth?⟩ := d
  cases key with
  | divisionPrecision =>
    cases precision? with
    | some z => cases h
    | none =>
      cases h
      refine ⟨rfl, funext fun key => ?_⟩
      cases key <;> rfl
  | maxDepth =>
    cases depth? with
    | some z => cases h
    | none =>
      cases h
      refine ⟨rfl, funext fun key => ?_⟩
      cases key <;> rfl

theorem Draft.exists_set? (h : d.value? key = none) (z : ℤ) : ∃ d', d.set? key z = some d' := by
  obtain ⟨precision?, depth?⟩ := d
  cases key with
  | divisionPrecision =>
    obtain rfl : precision? = none := h
    exact ⟨_, rfl⟩
  | maxDepth =>
    obtain rfl : depth? = none := h
    exact ⟨_, rfl⟩

theorem readLines?_of_endsHere (h : endsHere line = true) :
    readLines? d (line :: lines) = readLines? d lines := by
  rw [readLines?, if_pos h]

theorem readLines?_of_not_endsHere (h : endsHere line = false) :
    readLines? d (line :: lines) = (readAssignment? line).bind fun x =>
      (d.set? x.1 x.2).bind fun d' => readLines? d' lines := by
  rw [readLines?, if_neg (by simp [h])]
  rfl

/-- A line that is no assignment to an option spoils all. -/
theorem readLines?_eq_none_of_mem (hline : line ∈ lines) (hends : endsHere line = false)
    (hnone : readAssignment? line = none) : readLines? d lines = none := by
  induction lines generalizing d with
  | nil => cases hline
  | cons first lines ih =>
    rcases List.mem_cons.1 hline with rfl | hline
    · rw [readLines?_of_not_endsHere hends, hnone]
      rfl
    · cases hfirst : endsHere first with
      | true =>
        rw [readLines?_of_endsHere hfirst]
        exact ih hline
      | false =>
        simp [readLines?_of_not_endsHere hfirst, ih hline]

/-- Where lines are read to their end, no two of them assign to one option, and none to an
option that was set before. -/
theorem once_of_readLines? (key : Key) (h : readLines? d lines = some d') :
    (lines.Pairwise fun x y => ¬ (AssignsTo key x ∧ AssignsTo key y)) ∧
      ((d.value? key).isSome → ∀ line ∈ lines, ¬ AssignsTo key line) := by
  induction lines generalizing d with
  | nil => exact ⟨.nil, nofun⟩
  | cons line lines ih =>
    cases hends : endsHere line with
    | true =>
      have hsilent : ¬ AssignsTo key line := fun hassigns => by
        cases hends.symm.trans hassigns.endsHere_eq
      rw [readLines?_of_endsHere hends] at h
      obtain ⟨hpairs, hset⟩ := ih h
      refine ⟨.cons (fun _ _ hboth => hsilent hboth.1) hpairs, fun hsome => ?_⟩
      exact List.forall_mem_cons.2 ⟨hsilent, hset hsome⟩
    | false =>
      simp only [readLines?_of_not_endsHere hends, Option.bind_eq_some_iff] at h
      obtain ⟨⟨key', z⟩, hread, d₁, hd₁, hrest⟩ := h
      obtain ⟨hnew, hvalues⟩ := Draft.set?_eq_some hd₁
      obtain ⟨hpairs, hset⟩ := ih hrest
      constructor
      · refine .cons (fun x hx hboth => ?_) hpairs
        obtain rfl : key' = key := hboth.1.eq_of_readAssignment? hread
        exact hset (by simp [hvalues]) x hx hboth.2
      · intro hsome
        have hother : key ≠ key' := by
          rintro rfl
          rw [hnew] at hsome
          cases hsome
        refine List.forall_mem_cons.2 ⟨fun hassigns => ?_, hset ?_⟩
        · exact hother (hassigns.eq_of_readAssignment? hread).symm
        · rw [hvalues, Function.update_of_ne hother]
          exact hsome

/-- The lines of a document are read as what they say, on any draft that has not set their
options before, unless some value is not one of 64 bits. -/
theorem Says.readLines? {values : Key → Option ℤ} (h : Says values lines)
    (hfree : ∀ key, (values key).isSome → d.value? key = none) :
    (∃ d', readLines? d lines = some d' ∧ ∀ key, d'.value? key = (values key).or (d.value? key)) ∨
      (readLines? d lines = none ∧ ∃ key z, values key = some z ∧ ¬ Fast.Fits z) := by
  induction h generalizing d with
  | nil => exact .inl ⟨d, rfl, fun _ => rfl⟩
  | silent hline _ ih =>
    rw [readLines?_of_endsHere hline.endsHere_eq]
    exact ih hfree
  | @sets values key z line lines hline hnew _ ih =>
    rw [readLines?_of_not_endsHere hline.assignsTo.endsHere_eq, hline.readAssignment?_eq]
    by_cases hfits : Fast.Fits z
    · obtain ⟨d₁, hd₁⟩ := Draft.exists_set? (hfree key (by simp)) z
      obtain ⟨-, hvalues⟩ := Draft.set?_eq_some hd₁
      have hother : ∀ key', (values key').isSome → key' ≠ key := by
        rintro key' hsome rfl
        rw [hnew] at hsome
        cases hsome
      have hfree₁ : ∀ key', (values key').isSome → d₁.value? key' = none := by
        intro key' hsome
        have hne := hother key' hsome
        rw [hvalues, Function.update_of_ne hne]
        exact hfree key' (by rwa [Function.update_of_ne hne])
      simp only [if_pos hfits, Option.bind_some, hd₁]
      rcases ih hfree₁ with ⟨d', hd', hread⟩ | ⟨hnone, key', z', hz', hbad⟩
      · refine .inl ⟨d', hd', fun key' => ?_⟩
        rw [hread, hvalues]
        by_cases hsame : key' = key
        · subst hsame
          simp [hnew]
        · simp [Function.update_of_ne hsame]
      · have hne := hother key' (by simp [hz'])
        exact .inr ⟨hnone, key', z', by rw [Function.update_of_ne hne, hz'], hbad⟩
    · rw [if_neg hfits]
      exact .inr ⟨rfl, key, z, by simp, hfits⟩

theorem Says.readLines?_empty {values : Key → Option ℤ} (h : Says values lines) :
    (∃ d, Document.readLines? {} lines = some d ∧ d.value? = values) ∨
      (Document.readLines? {} lines = none ∧ ∃ key z, values key = some z ∧ ¬ Fast.Fits z) := by
  have hempty : ∀ key, ({} : Draft).value? key = none := fun key => by cases key <;> rfl
  refine (h.readLines? fun key _ => hempty key).imp_left ?_
  rintro ⟨d, hd, hvalues⟩
  refine ⟨d, hd, funext fun key => ?_⟩
  rw [hvalues, hempty, Option.or_none]

theorem Draft.settings?_eq_some_iff {settings : Settings} : d.settings? = some settings ↔
    (settings.divisionPrecision : ℤ) = (d.value? .divisionPrecision).getD 34 ∧
      (settings.maxDepth : ℤ) = (d.value? .maxDepth).getD 100000 := by
  obtain ⟨divisionPrecision, maxDepth, hpos⟩ := settings
  have hprecision : d.precision?.getD (default : Settings).divisionPrecision =
    (d.value? .divisionPrecision).getD 34 := rfl
  have hdepth : d.depth?.getD (default : Settings).maxDepth =
    (d.value? .maxDepth).getD 100000 := rfl
  simp only [settings?, hprecision, hdepth]
  split
  · simp only [Option.some.injEq, Settings.mk.injEq]
    omega
  · next hbad =>
    simp only [reduceCtorEq, false_iff]
    omega

end

end Document

/-! ### Texts -/

section
open Document
variable {text : String} {lines : List (List Char)} {values : Key → Option ℤ}

theorem ofDocument_of_some {settings : Settings}
    (h : (readLines? {} (Document.lines text.toList)).bind Draft.settings? = some settings) :
    ofDocument text = settings.validate := by
  rw [ofDocument, h]

theorem ofDocument_of_none
    (h : (readLines? {} (Document.lines text.toList)).bind Draft.settings? = none) :
    ofDocument text = .error .malformed := by
  rw [ofDocument, h]

theorem fits_of_range {z : ℤ} (hlow : 0 ≤ z) (hhigh : z < 2 ^ 63) : Fast.Fits z := by
  constructor
  · omega
  · exact hhigh

/-- A document with values in their ranges gives what it says, unless the precision is not
supported. -/
theorem ofDocument_of_says (h : Says values lines) (htext : Lines lines text.toList)
    (hprecision : ∀ p, values .divisionPrecision = some p → 1 ≤ p ∧ p < 2 ^ 63)
    (hdepth : ∀ k, values .maxDepth = some k → 0 ≤ k ∧ k < 2 ^ 63) :
    ∃ settings : Settings,
      (settings.divisionPrecision : ℤ) = (values .divisionPrecision).getD 34 ∧
      (settings.maxDepth : ℤ) = (values .maxDepth).getD 100000 ∧
      ofDocument text = settings.validate := by
  have hlines := htext.lines_eq fun line => h.mark_notMem
  rcases h.readLines?_empty with ⟨d, hd, hvalues⟩ | ⟨-, key, z, hz, hbad⟩
  · have hp : 1 ≤ (values .divisionPrecision).getD 34 := by
      cases hp : values .divisionPrecision with
      | none => decide
      | some p => exact (hprecision p hp).1
    have hk : 0 ≤ (values .maxDepth).getD 100000 := by
      cases hk : values .maxDepth with
      | none => decide
      | some k => exact (hdepth k hk).1
    let settings : Settings :=
      { divisionPrecision := ((values .divisionPrecision).getD 34).toNat
        maxDepth := ((values .maxDepth).getD 100000).toNat
        precision_pos := by omega }
    have hsettings : (settings.divisionPrecision : ℤ) = (values .divisionPrecision).getD 34 ∧
        (settings.maxDepth : ℤ) = (values .maxDepth).getD 100000 := by
      constructor <;> simp only [settings] <;> omega
    refine ⟨settings, hsettings.1, hsettings.2, ofDocument_of_some ?_⟩
    rwa [hlines, hd, Option.bind_some, Draft.settings?_eq_some_iff, hvalues]
  · cases key with
    | divisionPrecision =>
      have hrange := hprecision z hz
      exact absurd (fits_of_range (by omega) hrange.2) hbad
    | maxDepth =>
      have hrange := hdepth z hz
      exact absurd (fits_of_range hrange.1 hrange.2) hbad

theorem ofDocument_of_out_of_range (h : Says values lines) (htext : Lines lines text.toList)
    (hbad : (∃ p ≤ 0, values .divisionPrecision = some p) ∨ ∃ k < 0, values .maxDepth = some k) :
    ofDocument text = .error .malformed := by
  have hlines := htext.lines_eq fun line => h.mark_notMem
  refine ofDocument_of_none ?_
  rcases h.readLines?_empty with ⟨d, hd, hvalues⟩ | ⟨hnone, -⟩
  · rw [hlines, hd, Option.bind_some, Option.eq_none_iff_forall_ne_some]
    intro settings hsettings
    obtain ⟨hp, hk⟩ := Draft.settings?_eq_some_iff.1 hsettings
    have hpos := settings.precision_pos
    rw [hvalues] at hp hk
    rcases hbad with ⟨p, hle, hvalue⟩ | ⟨k, hlt, hvalue⟩
    · rw [hvalue, Option.getD_some] at hp
      omega
    · rw [hvalue, Option.getD_some] at hk
      omega
  · rw [hlines, hnone]
    rfl

/-- A document is malformed if one more line, wherever it stands, assigns to a name that is no
option or to one that is set elsewhere. -/
theorem ofDocument_of_extra {before after : List (List Char)} {extra name value : List Char}
    (h : Says values (before ++ after)) (hextra : Assigns name extra value) (hname : IsBare name)
    (htext : Lines (before ++ extra :: after) text.toList)
    (htaken : ∀ key : Key, name = key.name.toList → (values key).isSome) :
    ofDocument text = .error .malformed := by
  have hlines : Document.lines text.toList = before ++ extra :: after := by
    refine htext.lines_eq fun line hline => ?_
    rcases List.mem_append.1 hline with hline | hline
    · exact h.mark_notMem (List.mem_append_left after hline)
    · rcases List.mem_cons.1 hline with rfl | hline
      · exact mark_notMem_of_assigns hextra hname
      · exact h.mark_notMem (List.mem_append_right before hline)
  have hnone : readLines? {} (before ++ extra :: after) = none := by
    by_cases hkey : ∃ key : Key, name = key.name.toList
    · obtain ⟨key, rfl⟩ := hkey
      obtain ⟨line, hline, hassigns⟩ := h.exists_assigns (htaken key rfl)
      rw [Option.eq_none_iff_forall_ne_some]
      intro d hd
      have honce := (once_of_readLines? key hd).1
      rw [List.pairwise_append, List.pairwise_cons] at honce
      rcases List.mem_append.1 hline with hline | hline
      · exact honce.2.2 line hline extra List.mem_cons_self ⟨hassigns, value, hextra⟩
      · exact honce.2.1.1 line hline ⟨⟨value, hextra⟩, hassigns⟩
    · have hmem : extra ∈ before ++ extra :: after := List.mem_append_right _ List.mem_cons_self
      refine readLines?_eq_none_of_mem hmem (hextra.endsHere_eq hname) ?_
      rw [hextra.readAssignment?_eq hname, ofName?_eq_none (not_exists.1 hkey)]
      rfl
  refine ofDocument_of_none ?_
  rw [hlines, hnone]
  rfl

theorem validate_of_ofDocument {settings : Settings} (h : ofDocument text = .ok settings) :
    settings.validate = .ok settings := by
  unfold ofDocument at h
  split at h
  · next s _ =>
    obtain ⟨rfl, hle⟩ := validate_eq_ok_iff.1 h
    exact h
  · cases h

/-- A run with supported settings does not fail because of them. -/
theorem result_runOnce_ne {settings : Settings} (h : settings.validate = .ok settings)
    (p : Program) (store : Store) (e : SettingsError) :
    (p.runOnce store settings).result ≠ .error (.settings e) := by
  simp only [Program.runOnce, h]
  generalize Evaluation.text _ = result
  cases result <;> simp [Except.mapError]

/-- A document that sets each option once at most, to a number in its range, is read as what it
says, with the defaults for what it does not set, unless the precision is above the limit. It
is malformed if a number is out of range, and if there is a line more that assigns to an option
a second time or to any other name. What is read from a text is never refused by a run. -/
theorem documents_are_read :
    (∀ (values : Key → Option ℤ) (lines : List (List Char)) (text : String),
      Says values lines → Lines lines text.toList →
      (∀ p, values .divisionPrecision = some p → 1 ≤ p ∧ p < 2 ^ 63) →
      (∀ k, values .maxDepth = some k → 0 ≤ k ∧ k < 2 ^ 63) →
      ∃ settings : Settings,
        (settings.divisionPrecision : ℤ) = (values .divisionPrecision).getD 34 ∧
        (settings.maxDepth : ℤ) = (values .maxDepth).getD 100000 ∧
        ofDocument text =
          if settings.divisionPrecision ≤ 100 then .ok settings
          else .error (.precisionTooLarge settings.divisionPrecision 100)) ∧
    (∀ (values : Key → Option ℤ) (lines : List (List Char)) (text : String),
      Says values lines → Lines lines text.toList →
      ((∃ p ≤ 0, values .divisionPrecision = some p) ∨ ∃ k < 0, values .maxDepth = some k) →
      ofDocument text = .error .malformed) ∧
    (∀ (values : Key → Option ℤ) (before after : List (List Char))
      (extra name value : List Char) (text : String),
      Says values (before ++ after) → Assigns name extra value → IsBare name →
      Lines (before ++ extra :: after) text.toList →
      (∀ key : Key, name = key.name.toList → (values key).isSome) →
      ofDocument text = .error .malformed) ∧
    ∀ (text : String) (settings : Settings), ofDocument text = .ok settings →
      1 ≤ settings.divisionPrecision ∧ settings.divisionPrecision ≤ 100 ∧
        ∀ (p : Program) (store : Store) (e : SettingsError),
          (p.runOnce store settings).result ≠ .error (.settings e) := by
  refine ⟨?_, ?_, ?_, ?_⟩
  · intro values lines text h htext hprecision hdepth
    exact ofDocument_of_says h htext hprecision hdepth
  · intro values lines text h htext hbad
    exact ofDocument_of_out_of_range h htext hbad
  · intro values before after extra name value text h hextra hname htext htaken
    exact ofDocument_of_extra h hextra hname htext htaken
  · intro text settings h
    have hvalid := validate_of_ofDocument h
    exact ⟨settings.precision_pos, (validate_eq_ok_iff.1 hvalid).2, result_runOnce_ne hvalid⟩

/-- A precision above the limit is refused as such, but not in a document that is malformed;
one without a precision has the default. -/
theorem documents_are_read_above_limit :
    ofDocument "max_depth = 8\r\n# digits\ndivision_precision = 101" =
        .error (.precisionTooLarge 101 100) ∧
      ofDocument "max_depth = -1\n# digits\ndivision_precision = 101" = .error .malformed ∧
      ofDocument "precision = 3\n# digits\ndivision_precision = 101" = .error .malformed ∧
      ∃ settings : Settings, ofDocument "max_depth = 8" = .ok settings ∧
        settings.divisionPrecision = 34 ∧
        ∀ e, ((⟨[], .fast 1⟩ : Program).runOnce {} settings).result ≠ .error (.settings e) := by
  have hnothing : IsGaps [] := nofun
  have hspace : IsGaps [' '] := by simp [IsGaps]
  have hcomment : IsSilent ('#' :: " digits".toList) := .comment hnothing (by simp)
  have hrest : Lines ['#' :: " digits".toList, plainLine .divisionPrecision 101]
      "# digits\ndivision_precision = 101".toList := by
    have htext : "# digits\ndivision_precision = 101".toList =
        '#' :: " digits".toList ++ '\n' :: plainLine .divisionPrecision 101 := by decide +kernel
    rw [htext]
    exact .feed (by decide +kernel) (.last (by decide +kernel))
  have hsays : Says (Function.update (fun _ => none) .divisionPrecision (some 101))
      ['#' :: " digits".toList, plainLine .divisionPrecision 101] :=
    .silent hcomment (.sets (sets_plainLine ..) rfl .nil)
  refine ⟨?_, ?_, ?_, ?_⟩
  · have htext : "max_depth = 8\r\n# digits\ndivision_precision = 101".toList =
        plainLine .maxDepth 8 ++ '\r' :: '\n' :: "# digits\ndivision_precision = 101".toList := by
      decide +kernel
    obtain ⟨settings, hp, -, hread⟩ := documents_are_read.1 _ _ _
      (.sets (sets_plainLine .maxDepth 8) rfl hsays)
      (by rw [htext]; exact .returnFeed (by decide +kernel) hrest)
      (by simp [Function.update]) (by simp [Function.update])
    have hlarge : settings.divisionPrecision = 101 := Int.ofNat.inj hp
    rw [hlarge, if_neg (by decide)] at hread
    exact hread
  · have htext : "max_depth = -1\n# digits\ndivision_precision = 101".toList =
        plainLine .maxDepth (-1) ++ '\n' :: "# digits\ndivision_precision = 101".toList := by
      decide +kernel
    exact documents_are_read.2.1 _ _ _ (.sets (sets_plainLine .maxDepth (-1)) rfl hsays)
      (by rw [htext]; exact .feed (by decide +kernel) hrest) (.inr ⟨-1, by decide, rfl⟩)
  · have htext : "precision = 3\n# digits\ndivision_precision = 101".toList =
        "precision = 3".toList ++ '\n' :: "# digits\ndivision_precision = 101".toList := by
      decide +kernel
    have hassigns : Assigns "precision".toList "precision = 3".toList " 3".toList :=
      .intro hnothing .bare hspace
    have hname : IsBare "precision".toList := by simp [IsBare]
    have hother : ∀ key : Key, "precision".toList ≠ key.name.toList := by
      intro key
      cases key <;> simp [Key.name]
    exact documents_are_read.2.2.1 _ [] _ _ _ _ _ hsays hassigns hname
      (by rw [htext]; exact .feed (by decide +kernel) hrest)
      fun key hkey => absurd hkey (hother key)
  · have htext : "max_depth = 8".toList = plainLine .maxDepth 8 := by decide +kernel
    obtain ⟨settings, hp, -, hread⟩ := documents_are_read.1 _ _ _
      (.sets (sets_plainLine .maxDepth 8) rfl .nil)
      (by rw [htext]; exact .last (by decide +kernel))
      (by simp [Function.update]) (by simp [Function.update])
    have hdefault : settings.divisionPrecision = 34 := Int.ofNat.inj hp
    rw [hdefault, if_pos (by decide)] at hread
    exact ⟨settings, hread, hdefault, (documents_are_read.2.2.2 _ _ hread).2.2 _ _⟩

end
end AdaptiveCalc.Settings
