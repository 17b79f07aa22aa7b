import Mathlib
import Lexicolor.Pattern.Bracket
import Lexicolor.Text.Search

/-!
# Classes written as spans

A class in brackets that lists characters and ranges is read as their union.
-/

namespace Lexicolor.Pattern

variable {ls : List Lexeme} {flags : Flags} {s : OpenSet} {outer : List OpenSet}

/-- The characters from the first to the second; the first alone if they are the same. -/
abbrev Span := Char × Char

namespace Span

def text (span : Span) : List Char :=
  if span.1 = span.2 then [span.1] else [span.1, '-', span.2]

def toClass (span : Span) : CharClass := .range span.1 span.2

/-- The characters with a meaning of their own in brackets. -/
def marks : List Char := [']', '[', '&', '-', '~', '^']

/-- The ends have no other meaning in brackets, and are in order. -/
def Ordinary (span : Span) : Prop := span.1 ∉ marks ∧ span.2 ∉ marks ∧ span.1 ≤ span.2

instance : DecidablePred Ordinary := fun _ => inferInstanceAs (Decidable (_ ∧ _ ∧ _))

/-- The text of spans up to the closing bracket. -/
def textAll (spans : List Span) : List Char := spans.flatMap text ++ [']']

theorem head?_textAll {spans : List Span} (h : ∀ span ∈ spans, span.Ordinary) :
    ∃ c rest, textAll spans = c :: rest ∧ c ≠ '-' := by
  cases spans with
  | nil => exact ⟨']', [], rfl, by decide⟩
  | cons span spans =>
      refine ⟨span.1, (textAll (span :: spans)).tail, ?_, ?_⟩
      · by_cases heq : span.1 = span.2 <;> simp [textAll, text, heq]
      · intro heq
        exact (h span List.mem_cons_self).1 (by simp [heq, marks])

end Span

/-- The lexeme starts a single member, and no operator of two characters. -/
structure StartsMember (l : Lexeme) (ls : List Lexeme) : Prop where
  ne_close : l ≠ .plain ']'
  ne_open : l ≠ .plain '['
  ne_operator : ∀ c ∈ ['&', '-', '~'], l = .plain c → ls.head? ≠ some (.plain c)

theorem readSet_single {l : Lexeme} {rest : List Lexeme} {set : CharClass}
    (hl : StartsMember l ls) (h : setMember l ls = .ok (set, rest)) :
    readSet flags s outer (l :: ls) = readSet flags (s.push ⟨set, 0⟩) outer rest := by
  obtain ⟨hclose, hopen, hoperator⟩ := hl
  simp only [List.forall_mem_cons] at hoperator
  rw [readSet.eq_def]
  split <;> simp_all
  split <;> simp_all

theorem startsMember_of_notMem {c : Char} (hc : c ∉ Span.marks) :
    StartsMember (.plain c) ls := by
  simp only [Span.marks, List.mem_cons, List.not_mem_nil, or_false, not_or] at hc
  refine ⟨by simp [hc], by simp [hc], fun mark hmark heq => ?_⟩
  cases heq
  simp [hc] at hmark

theorem readSet_member {c : Char} {rest : List Lexeme} {set : CharClass} (hc : c ∉ Span.marks)
    (h : setMember (.plain c) ls = .ok (set, rest)) :
    readSet flags s outer (.plain c :: ls) = readSet flags (s.push ⟨set, 0⟩) outer rest :=
  readSet_single (startsMember_of_notMem hc) h

/-- A span adds its class. -/
theorem readSet_span {span : Span} (h : span.Ordinary) (hls : ls.head? ≠ some (.plain '-')) :
    readSet flags s outer (span.text.map .plain ++ ls) =
      readSet flags (s.push ⟨span.toClass, 0⟩) outer ls := by
  obtain ⟨low, high⟩ := span
  obtain ⟨hlow, hhigh, hle⟩ := h
  -- a single character must not become the start of a range with what follows
  by_cases heq : low = high
  · subst heq
    simp only [Span.text, if_true, List.map_cons, List.map_nil, List.cons_append, List.nil_append]
    apply readSet_member hlow
    unfold setMember
    split <;> simp_all [Functor.map, Except.map, Lexeme.member, Span.toClass, CharClass.single]
  · simp only [Span.text, if_neg heq, List.map_cons, List.map_nil, List.cons_append,
      List.nil_append]
    apply readSet_member hlow
    simp only [Span.marks, List.mem_cons, List.not_mem_nil, or_false, not_or] at hhigh
    simp [setMember, hhigh, rangeOf, Lexeme.char?, hle, Functor.map, Except.map, Span.toClass]

/-- Spans add their classes one after the other. -/
theorem readSet_spans {spans : List Span} (h : ∀ span ∈ spans, span.Ordinary) :
    readSet flags s outer ((Span.textAll spans).map .plain ++ ls) =
      readSet flags
        { s with members := (spans.map fun span => ⟨span.toClass, 0⟩).reverse ++ s.members }
        outer (.plain ']' :: ls) := by
  induction spans generalizing s with
  | nil => rfl
  | cons span spans ih =>
      obtain ⟨hspan, hspans⟩ := List.forall_mem_cons.mp h
      obtain ⟨c, rest, htext, hc⟩ := Span.head?_textAll hspans
      have hls : ((Span.textAll spans).map Lexeme.plain ++ ls).head? ≠ some (.plain '-') := by
        rw [htext]
        simpa using hc
      have happend : Span.textAll (span :: spans) = span.text ++ Span.textAll spans := by
        simp [Span.textAll]
      rw [happend, List.map_append, List.append_assoc, readSet_span hspan hls, ih hspans]
      simp [OpenSet.push]

theorem openSet_spans {spans : List Span} (hne : spans ≠ []) (h : ∀ span ∈ spans, span.Ordinary) :
    openSet ((Span.textAll spans).map .plain ++ ls) =
      (⟨false, none, []⟩, (Span.textAll spans).map .plain ++ ls) := by
  obtain ⟨span, spans, rfl⟩ := List.exists_cons_of_ne_nil hne
  have hlow := (h span List.mem_cons_self).1
  simp only [Span.marks, List.mem_cons, List.not_mem_nil, or_false, not_or] at hlow
  have htext : ∃ rest, (Span.textAll (span :: spans)).map Lexeme.plain ++ ls =
      .plain span.1 :: rest := by
    by_cases heq : span.1 = span.2 <;> simp [Span.textAll, Span.text, heq]
  obtain ⟨rest, htext⟩ := htext
  simp [htext, openSet, takeHat, firstMembers, hyphens, hlow]

/-- The class of spans, and its levels. -/
def Span.union (spans : List Span) : Leveled CharClass :=
  ⟨.unionAll (spans.map Span.toClass), rowLevels (spans.map fun _ => 0) + 1⟩

theorem readSet_openSet_spans {spans : List Span} (hne : spans ≠ [])
    (h : ∀ span ∈ spans, span.Ordinary) :
    readSet {} (openSet ((Span.textAll spans).map .plain ++ ls)).1 []
      (openSet ((Span.textAll spans).map .plain ++ ls)).2 = .ok (Span.union spans, ls) := by
  rw [openSet_spans hne h, readSet_spans h, readSet]
  simp [OpenSet.close, OpenSet.content, Span.union, Flags.closeCase, Function.comp_def,
    List.map_const']

theorem holds_union {spans : List Span} {c : Char} :
    (Span.union spans).value.holds c = spans.any fun span => span.1 ≤ c && c ≤ span.2 := by
  induction spans with
  | nil => rfl
  | cons span spans ih =>
      rw [List.any_cons, ← ih]
      rfl

namespace Span

theorem le_and_le (a c : Char) : (decide (a ≤ c) && decide (c ≤ a)) = decide (c = a) :=
  CharClass.holds_single a c

/-- The letters of identifiers. -/
def identChars : List Span := [('A', 'Z'), ('a', 'z'), ('0', '9'), ('_', '_')]

theorem any_identChars (c : Char) :
    (identChars.any fun span => span.1 ≤ c && c ≤ span.2) = Text.isIdentChar c := by
  simp only [identChars, List.any_cons, List.any_nil, le_and_le]
  simp [Text.isIdentChar, Char.isAlphanum, Char.isAlpha, Char.isUpper, Char.isLower, Char.isDigit,
    Char.le_def, Bool.or_assoc, Bool.beq_eq_decide_eq]

end Span

theorem levels_union_le (spans : List Span) : (Span.union spans).levels ≤ 2 := by
  refine Nat.succ_le_succ (rowLevels_le fun l hl => ?_)
  obtain ⟨span, -, rfl⟩ := List.mem_map.mp hl
  exact Nat.le_refl 0

end Lexicolor.Pattern
