import AdaptiveCalc.Proofs.Settings.Integers
import AdaptiveCalc.Settings.Document

/-!
# The lines of a settings document

A line says nothing, or it assigns a value to a name. Both are said here without the reader,
and then that the reader takes such lines for what they are. Main statements:
`IsSilent.endsHere_eq`, `Assigns.readAssignment?_eq` and `WritesValue.readValue?_eq`.
-/
namespace AdaptiveCalc.Settings.Document

def IsGaps (cs : List Char) : Prop := ∀ c ∈ cs, c = ' ' ∨ c = '\t'

/-- A line, or the rest of one, that is blank or a comment. There is no control character in
a comment but the tab. -/
inductive IsSilent : List Char → Prop
  | blank {gaps : List Char} (hgaps : IsGaps gaps) : IsSilent gaps
  | comment {gaps text : List Char} (hgaps : IsGaps gaps)
      (htext : ∀ c ∈ text, c = '\t' ∨ (0x20 ≤ c.toNat ∧ c.toNat ≠ 0x7F)) :
      IsSilent (gaps ++ '#' :: text)

def IsBare (name : List Char) : Prop :=
  name ≠ [] ∧ ∀ c ∈ name, c.isAlphanum = true ∨ c = '_' ∨ c = '-'

/-- How a bare name is written: as it is, or between quotes all the same. -/
inductive SpellsName (name : List Char) : List Char → Prop
  | bare : SpellsName name name
  | literal : SpellsName name ('\'' :: (name ++ ['\'']))
  | basic : SpellsName name ('"' :: (name ++ ['"']))

/-- A line that assigns something to a name, and what follows the equals sign. -/
inductive Assigns (name : List Char) : List Char → List Char → Prop
  | intro {gaps gaps' spelling value : List Char} (hgaps : IsGaps gaps)
      (hspelling : SpellsName name spelling) (hgaps' : IsGaps gaps') :
      Assigns name (gaps ++ (spelling ++ (gaps' ++ '=' :: value))) value

/-- An integer behind an equals sign, perhaps with a comment. -/
inductive WritesValue : List Char → ℤ → Prop
  | intro {gaps text tail : List Char} {z : ℤ} (hgaps : IsGaps gaps)
      (htext : Integer.Writes text z) (htail : IsSilent tail) :
      WritesValue (gaps ++ (text ++ tail)) z

/-- The line assigns to the name of an option, perhaps something that is no value. -/
def AssignsTo (key : Key) (line : List Char) : Prop :=
  ∃ value, Assigns key.name.toList line value

def Sets (key : Key) (z : ℤ) (line : List Char) : Prop :=
  ∃ value, Assigns key.name.toList line value ∧ WritesValue value z

/-! ### Gaps -/

section
variable {gaps cs : List Char}

theorem isGap_iff {c : Char} : isGap c = true ↔ c = ' ' ∨ c = '\t' := by simp [isGap]

theorem isGap_eq_false {c : Char} (hspace : c ≠ ' ') (htab : c ≠ '\t') : isGap c = false := by
  simp [isGap, hspace, htab]

theorem skipGaps_append (hgaps : IsGaps gaps) (cs : List Char) :
    skipGaps (gaps ++ cs) = skipGaps cs :=
  List.dropWhile_append_of_pos fun c hc => isGap_iff.2 (hgaps c hc)

theorem skipGaps_of_isGaps (hgaps : IsGaps gaps) : skipGaps gaps = [] := by
  simpa [skipGaps] using skipGaps_append hgaps []

theorem skipGaps_cons {c : Char} (hc : isGap c = false) (cs : List Char) :
    skipGaps (c :: cs) = c :: cs :=
  List.dropWhile_cons_of_neg (by simp [hc])

theorem isCommentChar_iff {c : Char} :
    isCommentChar c = true ↔ c = '\t' ∨ (0x20 ≤ c.toNat ∧ c.toNat ≠ 0x7F) := by
  simp [isCommentChar]

theorem IsSilent.endsHere_eq (h : IsSilent cs) : endsHere cs = true := by
  unfold endsHere
  cases h with
  | blank hgaps => rw [skipGaps_of_isGaps hgaps]
  | comment hgaps htext =>
    rw [skipGaps_append hgaps, skipGaps_cons rfl]
    simpa [isCommentChar_iff] using htext

/-- A silent line begins with a gap or a comment, or it is empty. -/
theorem IsSilent.head (h : IsSilent cs) {c : Char} (hc : c ∈ cs.head?) :
    isGap c = true ∨ c = '#' := by
  cases h with
  | blank hgaps => exact .inl (isGap_iff.2 (hgaps c (List.mem_of_mem_head? hc)))
  | @comment gaps text hgaps _ =>
    cases gaps with
    | nil =>
      cases hc
      exact .inr rfl
    | cons gap gaps =>
      cases hc
      exact .inl (isGap_iff.2 (hgaps _ List.mem_cons_self))

end

/-! ### Names -/

section
variable {name spelling rest : List Char}

theorem isBareChar_iff {c : Char} :
    isBareChar c = true ↔ c.isAlphanum = true ∨ c = '_' ∨ c = '-' := by
  simp [isBareChar, or_assoc]

theorem isBare_name (key : Key) : IsBare key.name.toList := by
  cases key <;> simp [IsBare, Key.name]

@[simp] theorem ofName?_name (key : Key) : Key.ofName? key.name.toList = some key := by
  cases key <;> rfl

theorem ofName?_eq_none (h : ∀ key : Key, name ≠ key.name.toList) : Key.ofName? name = none := by
  rw [Key.ofName?, if_neg (h _), if_neg (h _)]

theorem IsBare.exists_cons (h : IsBare name) : ∃ c rest, name = c :: rest ∧
    isBareChar c = true := by
  obtain ⟨c, rest, rfl⟩ := List.exists_cons_of_ne_nil h.1
  exact ⟨c, rest, rfl, isBareChar_iff.2 (h.2 c List.mem_cons_self)⟩

theorem readQuoted?_append (done : List Char) (h : ∀ c ∈ name, isBareChar c = true) :
    readQuoted? done (name ++ '"' :: rest) = some (done.reverse ++ name, rest) := by
  induction name generalizing done with
  | nil => simp [readQuoted?]
  | cons c name ih =>
    have hc := h c List.mem_cons_self
    have hquote : c ≠ '"' := by rintro rfl; cases hc
    have hescape : c ≠ '\\' := by rintro rfl; cases hc
    have hrest := ih (c :: done) fun x hx => h x (.tail c hx)
    simp [readQuoted?, hescape, hrest]

theorem readName?_append (hname : IsBare name) (hspelling : SpellsName name spelling)
    (hrest : ∀ c ∈ rest.head?, isBareChar c = false) :
    readName? (spelling ++ rest) = some (name, rest) := by
  have hbare : ∀ c ∈ name, isBareChar c = true := fun c hc => isBareChar_iff.2 (hname.2 c hc)
  cases hspelling with
  | bare =>
    obtain ⟨htake, hdrop⟩ := span_append hbare hrest
    obtain ⟨c, tail, rfl, hc⟩ := hname.exists_cons
    unfold readName?
    split
    · next heq => rw [(List.cons.inj heq).1] at hc; cases hc
    · next heq => rw [(List.cons.inj heq).1] at hc; cases hc
    · rw [htake, hdrop]
  | literal =>
    have hquote : ∀ c ∈ name, (c != '\'') = true := by
      intro c hc
      rw [bne_iff_ne]
      rintro rfl
      cases hbare _ hc
    have hend : ∀ c ∈ ('\'' :: rest).head?, (c != '\'') = false := by simp
    obtain ⟨htake, hdrop⟩ := span_append hquote hend
    simp [readName?, htake, hdrop]
  | basic =>
    rw [List.cons_append, List.append_assoc]
    exact readQuoted?_append [] hbare

end

/-! ### Assignments -/

section
variable {name line value : List Char}

theorem SpellsName.exists_cons {spelling : List Char} (h : SpellsName name spelling)
    (hname : IsBare name) :
    ∃ c rest, spelling = c :: rest ∧ (isBareChar c = true ∨ c = '\'' ∨ c = '"') := by
  cases h with
  | literal => exact ⟨_, _, rfl, .inr (.inl rfl)⟩
  | basic => exact ⟨_, _, rfl, .inr (.inr rfl)⟩
  | bare =>
    obtain ⟨c, rest, hcons, hc⟩ := hname.exists_cons
    exact ⟨c, rest, hcons, .inl hc⟩

theorem ne_of_begins_name {c d : Char} (hc : isBareChar c = true ∨ c = '\'' ∨ c = '"')
    (hd : isBareChar d = false) (hquote : d ∉ ['\'', '"']) : c ≠ d := by
  rintro rfl
  rcases hc with hc | rfl | rfl
  · cases hd.symm.trans hc
  · exact hquote (by simp)
  · exact hquote (by simp)

theorem isGap_of_begins_name {c : Char} (hc : isBareChar c = true ∨ c = '\'' ∨ c = '"') :
    isGap c = false :=
  isGap_eq_false (ne_of_begins_name hc rfl (by decide)) (ne_of_begins_name hc rfl (by decide))

namespace Assigns

theorem endsHere_eq (h : Assigns name line value) (hname : IsBare name) :
    endsHere line = false := by
  cases h with
  | intro hgaps hspelling _ =>
    obtain ⟨c, rest, rfl, hc⟩ := hspelling.exists_cons hname
    have hcomment : c ≠ '#' := ne_of_begins_name hc rfl (by decide)
    rw [endsHere, skipGaps_append hgaps, List.cons_append,
      skipGaps_cons (isGap_of_begins_name hc)]
    simp [hcomment]

/-- An assignment is read as one, unless the name or the value is none. -/
theorem readAssignment?_eq (h : Assigns name line value) (hname : IsBare name) :
    readAssignment? line =
      (Key.ofName? name).bind fun key => (readValue? (skipGaps value)).map fun z => (key, z) := by
  cases h with
  | @intro gaps gaps' spelling value hgaps hspelling hgaps' =>
    have hstop : ∀ c ∈ (gaps' ++ '=' :: value).head?, isBareChar c = false := by
      intro c hc
      cases gaps' with
      | nil =>
        cases hc
        rfl
      | cons gap gaps' =>
        cases hc
        rcases hgaps' c List.mem_cons_self with rfl | rfl <;> rfl
    obtain ⟨c, rest, hcons, hc⟩ := hspelling.exists_cons hname
    have hread : readName? (skipGaps (gaps ++ (spelling ++ (gaps' ++ '=' :: value)))) =
        some (name, gaps' ++ '=' :: value) := by
      have hname := readName?_append hname hspelling hstop
      rw [hcons, List.cons_append] at hname ⊢
      rw [skipGaps_append hgaps, skipGaps_cons (isGap_of_begins_name hc), hname]
    rw [readAssignment?, hread]
    simp only [Option.bind_eq_bind, Option.bind_some, skipGaps_append hgaps',
      skipGaps_cons (c := '=') rfl, Option.map_eq_bind, Function.comp_def]

end Assigns

theorem isValueChar_of_writes {text : List Char} {z : ℤ} (h : Integer.Writes text z) {c : Char}
    (hc : c ∈ text) : isGap c = false ∧ c ≠ '#' := by
  have hne : ∀ d : Char, d.isDigit = false → d ∉ ['_', '+', '-'] → c ≠ d := by
    rintro d hdigit hsign rfl
    rcases h.mem_chars hc with hd | hd
    · rw [hdigit] at hd
      cases hd
    · exact hsign hd
  exact ⟨isGap_eq_false (hne ' ' rfl (by decide)) (hne '\t' rfl (by decide)),
    hne '#' rfl (by decide)⟩

/-- The reader takes a value for what it is, if it is one of 64 bits. -/
theorem WritesValue.readValue?_eq {z : ℤ} (h : WritesValue value z) :
    readValue? (skipGaps value) = if Fast.Fits z then some z else none := by
  cases h with
  | @intro gaps text tail z hgaps htext htail =>
    have hchars : ∀ c ∈ text, (!isGap c && c != '#') = true := fun c hc => by
      simpa using isValueChar_of_writes htext hc
    have hstop : ∀ c ∈ tail.head?, (!isGap c && c != '#') = false := fun c hc => by
      rcases htail.head hc with hgap | rfl
      · simp [hgap]
      · rfl
    obtain ⟨htake, hdrop⟩ := span_append hchars hstop
    have hstart : skipGaps (text ++ tail) = text ++ tail := by
      obtain ⟨c, rest, rfl⟩ := List.exists_cons_of_ne_nil htext.ne_nil
      exact skipGaps_cons (isValueChar_of_writes htext List.mem_cons_self).1 _
    rw [skipGaps_append hgaps, hstart, readValue?, htake, hdrop, htext.read?_eq]
    simp [htail.endsHere_eq]

theorem AssignsTo.endsHere_eq {key : Key} (h : AssignsTo key line) : endsHere line = false := by
  obtain ⟨value, hassigns⟩ := h
  exact hassigns.endsHere_eq (isBare_name key)

theorem AssignsTo.eq_of_readAssignment? {key : Key} (h : AssignsTo key line) {x : Key × ℤ}
    (hread : readAssignment? line = some x) : x.1 = key := by
  obtain ⟨value, hassigns⟩ := h
  rw [hassigns.readAssignment?_eq (isBare_name key), ofName?_name, Option.bind_some,
    Option.map_eq_some_iff] at hread
  obtain ⟨z, -, rfl⟩ := hread
  rfl

theorem Sets.assignsTo {key : Key} {z : ℤ} (h : Sets key z line) : AssignsTo key line := by
  obtain ⟨value, hassigns, -⟩ := h
  exact ⟨value, hassigns⟩

theorem Sets.readAssignment?_eq {key : Key} {z : ℤ} (h : Sets key z line) :
    readAssignment? line = if Fast.Fits z then some (key, z) else none := by
  obtain ⟨value, hassigns, hvalue⟩ := h
  rw [hassigns.readAssignment?_eq (isBare_name key), ofName?_name, Option.bind_some,
    hvalue.readValue?_eq]
  split <;> rfl

def plainLine (key : Key) (z : ℤ) : List Char :=
  key.name.toList ++ ' ' :: '=' :: ' ' :: integerChars z

theorem sets_plainLine (key : Key) (z : ℤ) : Sets key z (plainLine key z) := by
  have hspace : IsGaps [' '] := fun c hc => .inl (List.mem_singleton.1 hc)
  have hnothing : IsGaps [] := nofun
  refine ⟨' ' :: integerChars z, ?_, ?_⟩
  · exact .intro hnothing .bare hspace
  · have hvalue := WritesValue.intro hspace (Integer.writes_integerChars z) (.blank hnothing)
    rwa [List.append_nil] at hvalue

end

end AdaptiveCalc.Settings.Document
