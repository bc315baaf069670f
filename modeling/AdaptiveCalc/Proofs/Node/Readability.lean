import AdaptiveCalc.Proofs.Builder.ReadBack

/-!
# Reading trees off their texts

Operations stand in parentheses, but assignments and negations do not, and a minus sign is an
operator, a negation or a part of a literal. The text still tells the tree, whatever stands
behind it in a larger text: the shape, the operators, the slots, and the texts of the literals.
It does not tell settled bits, the kinds of literals, and whether a minus sign before a literal
belongs to it. Main statement: `text_eq_iff_alike`.
-/
namespace AdaptiveCalc
namespace Node

/-- The tree with the negation of its absolute value in the place of each literal below zero.
That of the smallest integer is a decimal. -/
def unsigned : Node → Node
  | fast k => if k.toInt < 0 then neg (literal (Value.fast k).negate) else fast k
  | precise d => if d.digits < 0 then neg (literal (Value.precise d).negate) else precise d
  | read slot => read slot
  | assign slot e => assign slot e.unsigned
  | negate b e => negate b e.unsigned
  | binary op b l r => binary op b l.unsigned r.unsigned

/-- Trees of one shape, with the same operators and slots everywhere, and with literals of one
plain text, hence of one number, at the same places. -/
inductive Alike : Node → Node → Prop
  | literal {v w : Value} (htext : v.toDecimal.plainChars = w.toDecimal.plainChars)
      (hvalue : v.toRat = w.toRat) : Alike (literal v) (literal w)
  | read (slot : ℕ) : Alike (read slot) (read slot)
  | assign (slot : ℕ) {e e' : Node} (he : Alike e e') : Alike (assign slot e) (assign slot e')
  | negate (b b' : Bool) {e e' : Node} (he : Alike e e') : Alike (negate b e) (negate b' e')
  | binary (op : Operator) (b b' : Bool) {l l' r r' : Node} (hl : Alike l l') (hr : Alike r r') :
      Alike (binary op b l r) (binary op b' l' r')

theorem Alike.chars_eq {n m : Node} (h : Alike n m) : n.chars = m.chars := by
  induction h with
  | literal htext => rw [chars_literal, chars_literal, htext]
  | read => rfl
  | assign _ _ ih => rw [chars, chars, ih]
  | negate _ _ _ ih => rw [chars, chars, ih]
  | binary _ _ _ _ _ ihl ihr => rw [chars, chars, ihl, ihr]

inductive Unsigned : Node → Prop
  | literal {v : Value} (h : 0 ≤ v.toDecimal.digits) : Unsigned (literal v)
  | read (slot : ℕ) : Unsigned (read slot)
  | assign (slot : ℕ) {e : Node} (he : Unsigned e) : Unsigned (assign slot e)
  | negate (b : Bool) {e : Node} (he : Unsigned e) : Unsigned (negate b e)
  | binary (op : Operator) (b : Bool) {l r : Node} (hl : Unsigned l) (hr : Unsigned r) :
      Unsigned (binary op b l r)

theorem Unsigned.neg_literal {v : Value} (h : v.toDecimal.digits < 0) :
    Unsigned (neg (Node.literal v.negate)) := by
  refine .negate false (.literal ?_)
  rw [Value.toDecimal_negate, Decimal.digits_neg]
  omega

theorem unsigned_unsigned (n : Node) : Unsigned n.unsigned := by
  induction n with
  | fast k =>
    unfold unsigned
    split_ifs with h
    · exact .neg_literal h
    · exact Unsigned.literal (v := .fast k) (Int.not_lt.1 h)
  | precise d =>
    unfold unsigned
    split_ifs with h
    · exact .neg_literal h
    · exact Unsigned.literal (v := .precise d) (Int.not_lt.1 h)
  | read slot => exact .read slot
  | assign slot _ ih => exact .assign slot ih
  | negate b _ ih => exact .negate b ih
  | binary op b _ _ ihl ihr => exact .binary op b ihl ihr

/-- A literal below zero looks like the negation of its absolute value. -/
theorem chars_neg_literal {v : Value} (h : v.toDecimal.digits < 0) :
    (neg (literal v.negate)).chars = (literal v).chars := by
  have hsign : signChars v.toDecimal.digits = ['-'] := if_pos h
  have hsign' : signChars (-v.toDecimal.digits) = [] := if_neg (by omega)
  rw [neg, chars, chars_literal, chars_literal, Value.toDecimal_negate]
  simp only [Decimal.plainChars, Decimal.digits_neg, Decimal.scale_neg, Int.natAbs_neg, hsign,
    hsign', List.nil_append, List.singleton_append]

theorem chars_unsigned (n : Node) : n.unsigned.chars = n.chars := by
  induction n with
  | fast k =>
    unfold unsigned
    split_ifs with h
    · exact chars_neg_literal (v := .fast k) h
    · rfl
  | precise d =>
    unfold unsigned
    split_ifs with h
    · exact chars_neg_literal (v := .precise d) h
    · rfl
  | read => rfl
  | assign _ _ ih => rw [unsigned, chars, chars, ih]
  | negate _ _ ih => rw [unsigned, chars, chars, ih]
  | binary _ _ _ _ ihl ihr => rw [unsigned, chars, chars, ihl, ihr]

/-- The character that a tree begins with, unless it begins with a digit. -/
def mark? : Node → Option Char
  | fast _ | precise _ => none
  | read _ | assign _ _ => some '$'
  | negate _ _ => some '-'
  | binary _ _ _ _ => some '('

@[simp] theorem mark?_literal (v : Value) : (literal v).mark? = none := by cases v <;> rfl
@[simp] theorem mark?_read (slot : ℕ) : (read slot).mark? = some '$' := rfl
@[simp] theorem mark?_assign (slot : ℕ) (e : Node) : (assign slot e).mark? = some '$' := rfl
@[simp] theorem mark?_negate (b : Bool) (e : Node) : (negate b e).mark? = some '-' := rfl
@[simp] theorem mark?_binary (op : Operator) (b : Bool) (l r : Node) :
    (binary op b l r).mark? = some '(' := rfl

theorem exists_digit_cons {a : Decimal} (h : 0 ≤ a.digits) :
    ∃ c cs, a.plainChars = c :: cs ∧ c.isDigit = true := by
  have hsign : signChars a.digits = [] := if_neg (Int.not_lt.2 h)
  rcases Int.lt_or_le 0 a.scale with hs | hs
  · obtain ⟨whole, fraction, htext, hpadded, hwhole, -⟩ := Decimal.exists_plainChars_of_pos hs
    obtain ⟨c, rest, rfl⟩ := List.exists_cons_of_ne_nil hwhole
    rw [hsign, List.nil_append, List.cons_append] at htext
    have hmem : c ∈ c :: rest ++ fraction := List.mem_cons_self
    rw [hpadded] at hmem
    exact ⟨c, _, htext, Decimal.isDigit_of_mem_paddedChars _ _ hmem⟩
  · obtain ⟨c, rest, hc⟩ := List.exists_cons_of_ne_nil (naturalChars_ne_nil a.digits.natAbs)
    have htext := Decimal.plainChars_of_nonpos hs
    rw [hsign, hc, List.nil_append, List.cons_append] at htext
    exact ⟨c, _, htext, isDigit_of_mem_naturalChars (hc ▸ List.mem_cons_self)⟩

theorem Unsigned.exists_first {n : Node} (h : Unsigned n) :
    ∃ c cs, n.chars = c :: cs ∧ (n.mark? = some c ∨ n.mark? = none ∧ c.isDigit = true) := by
  cases h with
  | literal hv =>
    obtain ⟨c, cs, hcs, hc⟩ := exists_digit_cons hv
    exact ⟨c, cs, (chars_literal _).trans hcs, .inr ⟨mark?_literal _, hc⟩⟩
  | read | assign | negate | binary => exact ⟨_, _, rfl, .inl rfl⟩

theorem isDigit_mark? {n : Node} {c : Char} (h : n.mark? = some c) : c.isDigit = false := by
  cases n <;> cases h <;> rfl

section
variable {n m : Node} {rest rest' : List Char}

theorem Unsigned.mark?_eq (hn : Unsigned n) (hm : Unsigned m)
    (h : n.chars ++ rest = m.chars ++ rest') : n.mark? = m.mark? := by
  obtain ⟨c, cs, hcs, hc⟩ := hn.exists_first
  obtain ⟨d, ds, hds, hd⟩ := hm.exists_first
  rw [hcs, hds] at h
  obtain rfl : c = d := (List.cons.inj h).1
  rcases hc with hc | ⟨hc, hdigit⟩ <;> rcases hd with hd | ⟨hd, hdigit'⟩
  · rw [hc, hd]
  · rw [isDigit_mark? hc] at hdigit'
    cases hdigit'
  · rw [isDigit_mark? hd] at hdigit
    cases hdigit
  · rw [hc, hd]

theorem append_inj_of_run {p : Char → Bool} {xs ys : List Char} (hxs : ∀ c ∈ xs, p c = true)
    (hys : ∀ c ∈ ys, p c = true) (hrest : ∀ c ∈ rest.head?, p c = false)
    (hrest' : ∀ c ∈ rest'.head?, p c = false) (h : xs ++ rest = ys ++ rest') :
    xs = ys ∧ rest = rest' := by
  have hsame : xs = ys := by
    rw [← (span_append hxs hrest).1, h, (span_append hys hrest').1]
  subst hsame
  exact ⟨rfl, List.append_cancel_left h⟩

/-- What may stand behind an operand: nothing, the operator, or the closing parenthesis. -/
inductive Behind : List Char → Prop
  | nothing : Behind []
  | operator (op : Operator) (rest : List Char) : Behind (' ' :: op.symbol :: rest)
  | closing (rest : List Char) : Behind (')' :: rest)

theorem Behind.head (h : Behind rest) : ∀ c ∈ rest.head?, c = ' ' ∨ c = ')' := by
  cases h with
  | nothing => nofun
  | operator op rest =>
    rintro c ⟨⟩
    exact .inl rfl
  | closing rest =>
    rintro c ⟨⟩
    exact .inr rfl

theorem not_behind_equals : ¬Behind (' ' :: '=' :: rest) := by
  intro h
  generalize hcs : ' ' :: '=' :: rest = cs at h
  cases h with
  | nothing => cases hcs
  | operator op rest => cases op <;> simp [Operator.symbol] at hcs
  | closing rest => simp at hcs

/-- A slot ends with its digits, whether it is read or assigned. -/
theorem slot_inj {slot slot' : ℕ} (hrest : ∀ c ∈ rest.head?, c = ' ' ∨ c = ')')
    (hrest' : ∀ c ∈ rest'.head?, c = ' ' ∨ c = ')')
    (h : naturalChars slot ++ rest = naturalChars slot' ++ rest') :
    slot = slot' ∧ rest = rest' := by
  have hdigit : ∀ {tail : List Char}, (∀ c ∈ tail.head?, c = ' ' ∨ c = ')') →
      ∀ c ∈ tail.head?, c.isDigit = false := by
    intro tail htail c hc
    rcases htail c hc with rfl | rfl <;> rfl
  obtain ⟨hslot, htail⟩ := append_inj_of_run (fun _ => isDigit_of_mem_naturalChars)
    (fun _ => isDigit_of_mem_naturalChars) (hdigit hrest) (hdigit hrest') h
  refine ⟨?_, htail⟩
  rw [← ofDigitChars_naturalChars slot, hslot, ofDigitChars_naturalChars]

theorem plainChars_inj_of_behind {a b : Decimal} (hrest : Behind rest) (hrest' : Behind rest')
    (h : a.plainChars ++ rest = b.plainChars ++ rest') :
    a.plainChars = b.plainChars ∧ rest = rest' := by
  have hrun : ∀ {a : Decimal}, ∀ c ∈ a.plainChars, (c.isDigit || c == '-' || c == '.') = true := by
    intro a c hc
    rcases Decimal.mem_plainChars hc with hdigit | rfl | rfl
    · simp [hdigit]
    · rfl
    · rfl
  have hend : ∀ {tail : List Char}, Behind tail →
      ∀ c ∈ tail.head?, (c.isDigit || c == '-' || c == '.') = false := by
    intro tail htail c hc
    rcases htail.head c hc with rfl | rfl <;> rfl
  exact append_inj_of_run hrun hrun (hend hrest) (hend hrest') h

end

/-- A text begins with one tree only, up to what the text does not show, and the rest of the
text is the same for all readings. -/
theorem Unsigned.alike_of_append_eq {n : Node} (hn : Unsigned n) {m : Node} (hm : Unsigned m)
    {rest rest' : List Char} (hrest : Behind rest) (hrest' : Behind rest')
    (h : n.chars ++ rest = m.chars ++ rest') : Alike n m ∧ rest = rest' := by
  induction hn generalizing m rest rest' with
  | @literal v hv =>
    have hmark := (Unsigned.literal hv).mark?_eq hm h
    cases hm with
    | @literal w hw =>
      rw [chars_literal, chars_literal] at h
      obtain ⟨htext, hsame⟩ := plainChars_inj_of_behind hrest hrest' h
      exact ⟨.literal htext (Decimal.toRat_eq_of_plainChars_eq htext), hsame⟩
    | read | assign | negate | binary => simp at hmark
  | read slot =>
    have hmark := (Unsigned.read slot).mark?_eq hm h
    cases hm with
    | read slot' =>
      obtain ⟨rfl, hsame⟩ := slot_inj hrest.head hrest'.head (List.cons.inj h).2
      exact ⟨.read slot, hsame⟩
    | assign slot' he =>
      simp only [chars, List.cons_append, List.append_assoc, List.nil_append] at h
      obtain ⟨-, hsame⟩ := slot_inj hrest.head (by simp) (List.cons.inj h).2
      exact absurd (hsame ▸ hrest) not_behind_equals
    | literal | negate | binary => simp at hmark
  | assign slot he ih =>
    have hmark := (Unsigned.assign slot he).mark?_eq hm h
    cases hm with
    | read slot' =>
      simp only [chars, List.cons_append, List.append_assoc, List.nil_append] at h
      obtain ⟨-, hsame⟩ := slot_inj (by simp) hrest'.head (List.cons.inj h).2
      exact absurd (hsame ▸ hrest') not_behind_equals
    | assign slot' he' =>
      simp only [chars, List.cons_append, List.append_assoc, List.nil_append] at h
      obtain ⟨rfl, hsame⟩ := slot_inj (by simp) (by simp) (List.cons.inj h).2
      obtain ⟨hexpr, hsame'⟩ := ih he' hrest hrest' (by simpa using hsame)
      exact ⟨.assign slot hexpr, hsame'⟩
    | literal | negate | binary => simp at hmark
  | negate b he ih =>
    have hmark := (Unsigned.negate b he).mark?_eq hm h
    cases hm with
    | negate b' he' =>
      obtain ⟨hoperand, hsame⟩ := ih he' hrest hrest' (List.cons.inj h).2
      exact ⟨.negate b b' hoperand, hsame⟩
    | literal | read | assign | binary => simp at hmark
  | binary op b hl hr ihl ihr =>
    have hmark := (Unsigned.binary op b hl hr).mark?_eq hm h
    cases hm with
    | binary op' b' hl' hr' =>
      simp only [chars, List.cons_append, List.append_assoc, List.nil_append] at h
      obtain ⟨hleft, hsame⟩ := ihl hl' (.operator op _) (.operator op' _) (List.cons.inj h).2
      simp only [List.cons.injEq, true_and] at hsame
      obtain ⟨hop, hsame⟩ := hsame
      obtain rfl : op = op' := by
        simpa using congrArg Operator.ofSymbol? hop
      obtain ⟨hright, hsame'⟩ := ihr hr' (.closing _) (.closing _) hsame
      exact ⟨.binary op b b' hleft hright, (List.cons.inj hsame').2⟩
    | literal | read | assign | negate => simp at hmark

/-- Two trees have one text exactly if they have the same shape, operators and slots and the
same texts of literals, once each minus sign before a literal is read as a negation. -/
theorem text_eq_iff_alike (n m : Node) : n.text = m.text ↔ n.unsigned.Alike m.unsigned := by
  rw [← String.toList_inj, toList_text, toList_text, ← chars_unsigned n, ← chars_unsigned m]
  constructor
  · intro h
    have happend : n.unsigned.chars ++ [] = m.unsigned.chars ++ [] := congrArg (· ++ []) h
    exact (n.unsigned_unsigned.alike_of_append_eq m.unsigned_unsigned .nothing .nothing happend).1
  · exact Alike.chars_eq

/-- An assignment within an operand, and an operation within an assignment. -/
example :
    (op .add (assign 0 (fast 1)) (fast 2)).chars = "($0 = 1 + 2)".toList ∧
      (assign 0 (op .add (fast 1) (fast 2))).chars = "$0 = (1 + 2)".toList := by
  decide +kernel

end Node
end AdaptiveCalc
