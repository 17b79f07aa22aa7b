import Mathlib
import Lexicolor.Pattern.Reader
import Lexicolor.Proofs.Pattern.Spans

/-!
# Reading a notation piece by piece

What a piece of notation adds to the group that is being read depends neither on
that group nor on what follows. So the pattern of a text is known from its pieces:
characters, classes, repetitions, rows and groups.
-/

namespace Lexicolor.Pattern

variable {text text' : List Char} {lexs lexs' ls : List Lexeme}
variable {g : OpenGroup} {outer : List OpenGroup} {names : List (List Char)} {depth : Nat}
variable {c : Char} {settled : Bool} {parts parts' : List (Leveled Pattern)}
variable {texts : List (List Char)} {rows : List (List (Leveled Pattern))} {mark : List Char}

/-! ## Lexemes -/

theorem head?_append_ne {α : Type} {l l' : List α} {a : α} (h : l.head? ≠ some a)
    (h' : l'.head? ≠ some a) : (l ++ l').head? ≠ some a := by
  cases l with
  | nil => exact h'
  | cons b l => exact h

/-- The text is cut into the lexemes, whatever follows. A brace could become part of an escape in
front of it, so no text may start with one. -/
structure Lexes (text : List Char) (lexs : List Lexeme) : Prop where
  head?_ne : text.head? ≠ some '\x7b'
  lexemes_append : ∀ rest, rest.head? ≠ some '\x7b' →
    lexemes (text ++ rest) = (lexs ++ ·) <$> lexemes rest

theorem lexes_nil : Lexes [] [] := by
  refine ⟨by simp, fun rest _ => ?_⟩
  cases h : lexemes rest <;> simp [Functor.map, Except.map, h]

theorem Lexes.append (h : Lexes text lexs) (h' : Lexes text' lexs') :
    Lexes (text ++ text') (lexs ++ lexs') := by
  refine ⟨head?_append_ne h.head?_ne h'.head?_ne, fun rest hrest => ?_⟩
  rw [List.append_assoc, h.lexemes_append _ (head?_append_ne h'.head?_ne hrest),
    h'.lexemes_append rest hrest]
  cases lexemes rest <;> simp [Functor.map, Except.map]

theorem lexes_char (h : c ≠ '\\') (hbrace : c ≠ '\x7b') : Lexes [c] [.plain c] := by
  refine ⟨by simpa using hbrace, fun rest _ => ?_⟩
  rw [List.singleton_append, lexemes.eq_def]
  simp [h]

/-- An escape of two characters that leaves the text after it as it is. -/
theorem lexes_escape {l : Lexeme}
    (h : ∀ rest : List Char, rest.head? ≠ some '\x7b' → escapeAt c rest = .ok (l, rest)) :
    Lexes ['\\', c] [l] := by
  refine ⟨by simp, fun rest hrest => ?_⟩
  show lexemes ('\\' :: c :: rest) = _
  rw [lexemes, if_pos rfl]
  split
  next lexeme rest' heq =>
    rw [h rest hrest] at heq
    cases heq
    rfl
  next heq =>
    rw [h rest hrest] at heq
    cases heq

theorem lexes_literal (h : isSpecial c) : Lexes ['\\', c] [.literal c] := by
  apply lexes_escape
  intro rest _
  simp [escapeAt, isEscapable, h]

theorem lexes_boundary : Lexes ['\\', 'b'] [.place .boundary] := by
  apply lexes_escape
  intro rest hrest
  show boundaryEscape rest = _
  unfold boundaryEscape
  split
  next => exact absurd rfl hrest
  next => rfl

theorem lexes_map_plain (h : '\\' ∉ text) (hbrace : '\x7b' ∉ text) :
    Lexes text (text.map .plain) := by
  induction text with
  | nil => exact lexes_nil
  | cons c text ih =>
      rw [List.mem_cons, not_or] at h hbrace
      exact (lexes_char (Ne.symm h.1) (Ne.symm hbrace.1)).append (ih h.2 hbrace.2)

theorem Lexes.lexemes_eq (h : Lexes text lexs) : lexemes text = .ok lexs := by
  have h := h.lexemes_append [] (by simp)
  rw [List.append_nil, lexemes] at h
  simpa [Functor.map, Except.map] using h

/-! ## What a lexeme does to a group -/

namespace OpenGroup

def pushAll (g : OpenGroup) (parts : List (Leveled Pattern)) : OpenGroup :=
  parts.foldl (fun g p => g.push p.value p.levels) g

theorem pushAll_eq (g : OpenGroup) (parts : List (Leveled Pattern)) : g.pushAll parts =
    { g with parts := (parts.map fun p => ⟨some p.value, p.levels⟩).reverse ++ g.parts } := by
  induction parts generalizing g with
  | nil => rfl
  | cons p parts ih =>
      show (g.push p.value p.levels).pushAll parts = _
      rw [ih]
      simp [push]

theorem pushAll_append (g : OpenGroup) (parts parts' : List (Leveled Pattern)) :
    g.pushAll (parts ++ parts') = (g.pushAll parts).pushAll parts' := List.foldl_append

theorem flags_pushAll (g : OpenGroup) (parts : List (Leveled Pattern)) :
    (g.pushAll parts).flags = g.flags := by
  rw [pushAll_eq]

/-- The alternative made of parts in a row. -/
def rowOf (parts : List (Leveled Pattern)) : Leveled Pattern :=
  ⟨seqAll (parts.map Leveled.value), rowLevels (parts.map Leveled.levels).reverse⟩

theorem levels_rowOf_le {parts : List (Leveled Pattern)} (h : ∀ p ∈ parts, p.levels ≤ depth) :
    (rowOf parts).levels ≤ depth + 1 := by
  apply rowLevels_le
  intro l hl
  obtain ⟨p, hp, rfl⟩ := List.mem_map.mp (List.mem_reverse.mp hl)
  exact h p hp

theorem alternative_pushAll (flags : Flags) (before parts : List (Leveled Pattern)) :
    (pushAll ⟨flags, before, []⟩ parts).alternative = rowOf parts := by
  rw [pushAll_eq]
  simp only [alternative, rowOf, List.append_nil, List.map_reverse, List.reverse_reverse,
    List.map_map]
  congr 2
  induction parts with
  | nil => rfl
  | cons p parts ih => exact congrArg (p.value :: ·) ih

theorem before_pushAll (flags : Flags) (before parts : List (Leveled Pattern)) :
    (pushAll ⟨flags, before, []⟩ parts).before = before := by
  rw [pushAll_eq]

theorem split_pushAll (flags : Flags) (before parts : List (Leveled Pattern)) :
    (pushAll ⟨flags, before, []⟩ parts).split = ⟨flags, rowOf parts :: before, []⟩ := by
  rw [split, alternative_pushAll, before_pushAll, pushAll_eq]

end OpenGroup

theorem readGroup_literal : readGroup g outer names (.literal c :: ls) =
    readGroup (g.push (g.flags.char c) 0) outer names ls := by
  rw [readGroup.eq_def]

theorem readGroup_plain (h : c ∉ ['(', ')', '|', '[', '*', '+', '?', '\x7b']) :
    readGroup g outer names (.plain c :: ls) =
      readGroup (g.push (g.flags.plain c) 0) outer names ls := by
  simp only [List.mem_cons, List.not_mem_nil, or_false, not_or] at h
  rw [readGroup.eq_def]
  simp [h]

theorem readGroup_bar :
    readGroup g outer names (.plain '|' :: ls) = readGroup g.split outer names ls := by
  rw [readGroup.eq_def]
  simp

theorem readGroup_close {o : OpenGroup} : readGroup g (o :: outer) names (.plain ')' :: ls) =
    readGroup (o.push g.close.value (g.close.levels + 1)) outer names ls := by
  rw [readGroup.eq_def]
  simp

theorem readGroup_class {set : CharClass} : readGroup g outer names (.set set :: ls) =
    readGroup (g.push (one set) 0) outer names ls := by
  rw [readGroup.eq_def]

theorem readGroup_group {flags : Flags} {rest : List Lexeme}
    (h : groupHead g.flags ls = .ok (.group flags, rest)) :
    readGroup g outer names (.plain '(' :: ls) =
      readGroup (.start flags) (g :: outer) names rest := by
  rw [readGroup.eq_def]
  simp only [if_true]
  split <;> simp_all

theorem readGroup_directive {flags : Flags} {rest : List Lexeme}
    (h : groupHead g.flags ls = .ok (.directive flags, rest)) :
    readGroup g outer names (.plain '(' :: ls) = readGroup (g.direct flags) outer names rest := by
  rw [readGroup.eq_def]
  simp only [if_true]
  split <;> simp_all

theorem readGroup_named {name : List Char} {rest : List Lexeme} (hname : name ∉ names)
    (h : groupHead g.flags ls = .ok (.named name, rest)) :
    readGroup g outer names (.plain '(' :: ls) =
      readGroup (.start g.flags) (g :: outer) (name :: names) rest := by
  rw [readGroup.eq_def]
  simp only [if_true]
  split <;> simp_all

theorem groupHead_plain {flags : Flags} (h : ls.head? ≠ some (.plain '?')) :
    groupHead flags ls = .ok (.group flags, ls) := by
  unfold groupHead
  split
  case h_8 => rfl
  all_goals exact absurd rfl h

/-- What may stand after an opening parenthesis: nothing, or the mark that no capture is meant. -/
inductive Opening : List Char → Prop
  | plain : Opening []
  | uncaptured : Opening ['?', ':']

theorem readGroup_open {mark : List Char} (hmark : Opening mark) (hflags : g.flags = {})
    (h : ls.head? ≠ some (.plain '?')) :
    readGroup g outer names (.plain '(' :: mark.map .plain ++ ls) =
      readGroup (.start {}) (g :: outer) names ls := by
  have hhead : groupHead g.flags (mark.map .plain ++ ls) = .ok (.group {}, ls) := by
    rw [hflags]
    cases hmark with
    | plain => exact groupHead_plain h
    | uncaptured => rfl
  rw [List.cons_append, readGroup_group hhead]

theorem readGroup_place {a : Assertion} : readGroup g outer names (.place a :: ls) =
    readGroup (g.push (place a) 0) outer names ls := by
  rw [readGroup.eq_def]

theorem readGroup_set {ls' : List Lexeme} {set : Leveled CharClass}
    (h : readSet g.flags (openSet ls).1 [] (openSet ls).2 = .ok (set, ls')) :
    readGroup g outer names (.plain '[' :: ls) =
      readGroup (g.push (one set.value) set.levels) outer names ls' := by
  rw [readGroup.eq_def]
  simp only [Char.reduceEq, if_false, if_true]
  split <;> simp_all

theorem takeLazy_of_head?_ne (h : ls.head? ≠ some (.plain '?')) : takeLazy ls = (false, ls) := by
  unfold takeLazy
  split
  next => exact absurd rfl h
  next => rfl

theorem readGroup_counts {numbers : Nat × Option Nat} {rest : List Lexeme} {g' : OpenGroup}
    (hc : c = '*' ∨ c = '+' ∨ c = '?' ∨ c = '\x7b') (h : readCounts c ls = .ok (numbers, rest))
    (hlast : g.repeatLast numbers (takeLazy rest).1 = .ok g') :
    readGroup g outer names (.plain c :: ls) = readGroup g' outer names (takeLazy rest).2 := by
  rw [readGroup.eq_def]
  rcases hc with rfl | rfl | rfl | rfl
  all_goals
    simp only [Char.reduceEq, if_false, or_true, true_or, if_true]
    split <;> simp_all

/-- A repetition whose sign is one character. -/
theorem readGroup_repeat {numbers : Nat × Option Nat} {p : Pattern} {levels : Nat}
    (hc : c = '*' ∨ c = '+' ∨ c = '?') (hcount : readCounts c ls = .ok (numbers, ls))
    (hflags : g.flags = {}) (h : ls.head? ≠ some (.plain '?')) :
    readGroup (g.push p levels) outer names (.plain c :: ls) =
      readGroup (g.push (repeated p numbers.1 numbers.2 true) (levels + 1)) outer names ls := by
  have hlazy := takeLazy_of_head?_ne h
  have hlast : (g.push p levels).repeatLast numbers (takeLazy ls).1 =
      .ok (g.push (repeated p numbers.1 numbers.2 true) (levels + 1)) := by
    simp [OpenGroup.repeatLast, OpenGroup.push, hflags, hlazy]
  rw [readGroup_counts (hc.imp_right (Or.imp_right .inl)) hcount hlast, hlazy]

/-! ## Rows of parts -/

/-- The text adds the parts to the group that is being read. A reading that is not settled takes
no question mark after it. -/
def ReadsAs (settled : Bool) (text : List Char) (parts : List (Leveled Pattern)) : Prop :=
  ∃ lexs, Lexes text lexs ∧ lexs.head? ≠ some (.plain '?') ∧
    ∀ g outer names ls, g.flags = {} → (settled = false → ls.head? ≠ some (.plain '?')) →
      readGroup g outer names (lexs ++ ls) = readGroup (g.pushAll parts) outer names ls

theorem readsAs_nil : ReadsAs false [] [] :=
  ⟨[], lexes_nil, by simp, fun _ _ _ _ _ _ => rfl⟩

theorem ReadsAs.unsettle (h : ReadsAs settled text parts) : ReadsAs false text parts := by
  obtain ⟨lexs, hlexs, hhead, hread⟩ := h
  exact ⟨lexs, hlexs, hhead, fun g outer names ls hflags hls =>
    hread g outer names ls hflags fun _ => hls rfl⟩

theorem ReadsAs.append (h : ReadsAs false text parts) (h' : ReadsAs false text' parts') :
    ReadsAs false (text ++ text') (parts ++ parts') := by
  obtain ⟨lexs, hlexs, hhead, hread⟩ := h
  obtain ⟨lexs', hlexs', hhead', hread'⟩ := h'
  refine ⟨lexs ++ lexs', hlexs.append hlexs', head?_append_ne hhead hhead', ?_⟩
  intro g outer names ls hflags hls
  rw [List.append_assoc, hread g _ _ _ hflags fun _ => head?_append_ne hhead' (hls rfl),
    hread' _ _ _ _ (by rw [OpenGroup.flags_pushAll, hflags]) hls, OpenGroup.pushAll_append]

/-! ## Characters -/

theorem readsAs_boundary : ReadsAs true ['\\', 'b'] [⟨place .boundary, 0⟩] := by
  refine ⟨[.place .boundary], lexes_boundary, by simp, ?_⟩
  intro g outer names ls _ _
  rw [List.singleton_append, readGroup_place]
  rfl

theorem readsAs_place {a : Assertion} (hc : c = '^' ∧ a = .textStart ∨ c = '$' ∧ a = .textEnd) :
    ReadsAs false [c] [⟨place a, 0⟩] := by
  refine ⟨[.plain c], lexes_char ?_ ?_, ?_, ?_⟩
  · rcases hc with ⟨rfl, -⟩ | ⟨rfl, -⟩ <;> decide
  · rcases hc with ⟨rfl, -⟩ | ⟨rfl, -⟩ <;> decide
  · rcases hc with ⟨rfl, -⟩ | ⟨rfl, -⟩ <;> simp
  · intro g outer names ls hflags _
    rcases hc with ⟨rfl, rfl⟩ | ⟨rfl, rfl⟩
    all_goals
      rw [List.singleton_append, readGroup_plain (by decide), hflags]
      rfl

theorem readsAs_char (h : c ∉ ['\\', '.', '^', '$', '(', ')', '|', '[', '*', '+', '?', '\x7b']) :
    ReadsAs true [c] [⟨char c, 0⟩] := by
  have hmem : c ∉ ['(', ')', '|', '[', '*', '+', '?', '\x7b'] := by
    simp only [List.mem_cons, List.not_mem_nil, or_false, not_or] at h ⊢
    exact h.2.2.2.2
  simp only [List.mem_cons, List.not_mem_nil, or_false, not_or] at h
  obtain ⟨hslash, hdot, hstart, hend, -, -, -, -, -, -, hquestion, hbrace⟩ := h
  have hplain : ({} : Flags).plain c = char c := by
    rw [Flags.plain, if_neg hdot, if_neg hstart, if_neg hend]
    rfl
  refine ⟨[.plain c], lexes_char hslash hbrace, by simpa using hquestion, ?_⟩
  intro g outer names ls hflags _
  rw [List.singleton_append, readGroup_plain hmem, hflags, hplain]
  rfl

theorem readsAs_ordinary (h : isSpecial c = false) : ReadsAs true [c] [⟨char c, 0⟩] := by
  apply readsAs_char
  intro hmem
  have hall : ['\\', '.', '^', '$', '(', ')', '|', '[', '*', '+', '?', '\x7b'].all isSpecial := rfl
  rw [List.all_eq_true.mp hall c hmem] at h
  cases h

theorem readsAs_literal (h : isSpecial c) : ReadsAs true ['\\', c] [⟨char c, 0⟩] := by
  refine ⟨[.literal c], lexes_literal h, by simp, ?_⟩
  intro g outer names ls hflags _
  rw [List.singleton_append, readGroup_literal, hflags]
  rfl

/-- An escaped text is read as its characters. -/
theorem readsAs_escape (word : List Char) :
    ReadsAs false (escape word) (word.map fun c => ⟨char c, 0⟩) := by
  induction word with
  | nil => exact readsAs_nil
  | cons c word ih =>
      show ReadsAs false ((if isSpecial c then ['\\', c] else [c]) ++ escape word) ([_] ++ _)
      split
      next h => exact (readsAs_literal h).unsettle.append ih
      next h => exact (readsAs_ordinary (by simpa using h)).unsettle.append ih

/-! ## Classes and repetitions -/

theorem readsAs_spans (spans : List Span) (hne : spans ≠ [])
    (h : ∀ span ∈ spans, span.Ordinary)
    (hplain : '\\' ∉ Span.textAll spans ∧ '\x7b' ∉ Span.textAll spans) :
    ReadsAs true ('[' :: Span.textAll spans)
      [⟨one (Span.union spans).value, (Span.union spans).levels⟩] := by
  have hopen : Lexes ('[' :: Span.textAll spans) (('[' :: Span.textAll spans).map .plain) := by
    apply lexes_map_plain
    · simpa using hplain.1
    · simpa using hplain.2
  refine ⟨_, hopen, by simp, ?_⟩
  intro g outer names ls hflags _
  rw [List.map_cons, List.cons_append,
    readGroup_set (by rw [hflags]; exact readSet_openSet_spans hne h)]
  rfl

theorem ReadsAs.repeated {numbers : Nat × Option Nat} {p : Leveled Pattern}
    (h : ReadsAs true text [p]) (hc : c = '*' ∨ c = '+' ∨ c = '?')
    (hcount : ∀ ls, readCounts c ls = .ok (numbers, ls)) :
    ReadsAs false (text ++ [c])
      [⟨p.value.repeated numbers.1 numbers.2 true, p.levels + 1⟩] := by
  obtain ⟨lexs, hlexs, hhead, hread⟩ := h
  have hchar : Lexes [c] [.plain c] := by
    rcases hc with rfl | rfl | rfl <;> exact lexes_char (by decide) (by decide)
  -- a part shows in what is read
  have hempty : lexs ≠ [] := by
    rintro rfl
    have h := hread (.start {}) [] [] [] rfl (by simp)
    simp [readGroup, OpenGroup.pushAll, OpenGroup.push, OpenGroup.start] at h
  refine ⟨lexs ++ [.plain c], hlexs.append hchar, ?_, ?_⟩
  · cases lexs with
    | nil => exact absurd rfl hempty
    | cons l lexs => exact hhead
  · intro g outer names ls hflags hls
    rw [List.append_assoc, hread g _ _ _ hflags (by simp), List.singleton_append]
    exact readGroup_repeat hc (hcount ls) hflags (hls rfl)

/-! ## Groups -/

namespace OpenGroup

/-- The pattern made of alternatives, each of them a row of parts. -/
def groupOf (rows : List (List (Leveled Pattern))) : Leveled Pattern :=
  ⟨altAll (rows.map fun row => (rowOf row).value), (rowOf (rows.map rowOf)).levels⟩

theorem levels_groupOf_le (h : ∀ row ∈ rows, ∀ p ∈ row, p.levels ≤ depth) :
    (groupOf rows).levels ≤ depth + 2 := by
  apply levels_rowOf_le
  intro p hp
  obtain ⟨row, hrow, rfl⟩ := List.mem_map.mp hp
  exact levels_rowOf_le (h row hrow)

theorem close_eq_groupOf (h : g.alternative :: g.before = (rows.map rowOf).reverse) :
    g.close = groupOf rows := by
  simp [close, groupOf, rowOf, h, Function.comp_def]

end OpenGroup

/-- Rows with bars between them are alternatives of the group that is being read. -/
theorem reads_alternatives (hne : texts ≠ []) (h : List.Forall₂ (ReadsAs false) texts rows) :
    ∃ lexs, Lexes (Text.join ['|'] texts) lexs ∧ lexs.head? ≠ some (.plain '?') ∧
      ∀ before outer names ls, ls.head? ≠ some (.plain '?') → ∃ g : OpenGroup,
        g.alternative :: g.before = (rows.map OpenGroup.rowOf).reverse ++ before ∧
        readGroup ⟨{}, before, []⟩ outer names (lexs ++ ls) = readGroup g outer names ls := by
  -- the last row stays open in the group, and a bar puts the rows before it aside
  induction h with
  | nil => exact absurd rfl hne
  | @cons text row texts rows hrow hrows ih =>
      obtain ⟨lexs, hlexs, hhead, hread⟩ := hrow
      cases hrows with
      | nil =>
          refine ⟨lexs, by simpa [Text.join] using hlexs, hhead, fun before outer names ls hls =>
            ⟨OpenGroup.pushAll ⟨{}, before, []⟩ row, ?_, hread _ _ _ _ rfl fun _ => hls⟩⟩
          rw [OpenGroup.alternative_pushAll, OpenGroup.before_pushAll]
          rfl
      | @cons next nextRow texts rows hnext hrest =>
          obtain ⟨lexs', hlexs', hhead', hread'⟩ := ih (List.cons_ne_nil _ _)
          refine ⟨lexs ++ .plain '|' :: lexs', ?_, head?_append_ne hhead (by simp),
            fun before outer names ls hls => ?_⟩
          · exact hlexs.append ((lexes_char (by decide) (by decide)).append hlexs')
          · obtain ⟨g, hg, hread'⟩ := hread' (OpenGroup.rowOf row :: before) outer names ls hls
            refine ⟨g, by simpa using hg, ?_⟩
            rw [List.append_assoc, hread _ _ _ _ rfl (by simp), List.cons_append, readGroup_bar,
              OpenGroup.split_pushAll, hread']

/-- A group of alternatives is one part. -/
theorem readsAs_group (hmark : Opening mark) (hne : texts ≠ [])
    (h : List.Forall₂ (ReadsAs false) texts rows) :
    ReadsAs true ('(' :: mark ++ Text.join ['|'] texts ++ [')'])
      [⟨(OpenGroup.groupOf rows).value, (OpenGroup.groupOf rows).levels + 1⟩] := by
  obtain ⟨lexs, hlexs, hhead, hread⟩ := reads_alternatives hne h
  have hopen : Lexes ('(' :: mark) (.plain '(' :: mark.map .plain) := by
    cases hmark <;> exact lexes_map_plain (by decide) (by decide)
  refine ⟨(.plain '(' :: mark.map .plain) ++ lexs ++ [.plain ')'], ?_, by simp, ?_⟩
  · exact (hopen.append hlexs).append (lexes_char (by decide) (by decide))
  · intro g outer names ls hflags _
    obtain ⟨g', hg', hread⟩ := hread [] (g :: outer) names (.plain ')' :: ls) (by simp)
    rw [List.append_assoc, List.append_assoc,
      readGroup_open hmark hflags (head?_append_ne hhead (by simp)), OpenGroup.start,
      List.singleton_append, hread, readGroup_close,
      OpenGroup.close_eq_groupOf (hg'.trans (List.append_nil _))]
    rfl

/-! ## Whole texts -/

/-- The text is read on its own as the group. -/
def Opens (text : List Char) (g : OpenGroup) : Prop :=
  ∃ lexs, lexemes text = .ok lexs ∧ readGroup (.start {}) [] [] lexs = .ok g

theorem Opens.read_eq (h : Opens text g) (hlevels : g.close.levels ≤ maxLevels) :
    read text = .ok g.close.value := by
  obtain ⟨lexs, hlexs, hgroup⟩ := h
  show (lexemes text >>= fun ls => readGroup (.start {}) [] [] ls >>= fun g =>
    if g.close.levels ≤ maxLevels then pure g.close.value else throw PatternError.tooDeep) = _
  rw [hlexs]
  show (readGroup (.start {}) [] [] lexs >>= fun g =>
    if g.close.levels ≤ maxLevels then pure g.close.value else throw PatternError.tooDeep) = _
  rw [hgroup]
  exact if_pos hlevels

theorem OpenGroup.close_pushAll (parts : List (Leveled Pattern)) :
    (pushAll ⟨{}, [], []⟩ parts).close = rowOf parts := by
  rw [close, alternative_pushAll, before_pushAll]
  rfl

theorem ReadsAs.opens (h : ReadsAs false text parts) :
    Opens text (.pushAll ⟨{}, [], []⟩ parts) := by
  obtain ⟨lexs, hlexs, -, hread⟩ := h
  refine ⟨lexs, hlexs.lexemes_eq, ?_⟩
  rw [← List.append_nil lexs, hread _ _ _ _ rfl (by simp), readGroup]
  rfl

theorem read_of_readsAs (h : ReadsAs false text parts)
    (hparts : ∀ p ∈ parts, p.levels ≤ depth) (hdepth : depth < maxLevels) :
    read text = .ok (seqAll (parts.map Leveled.value)) := by
  have hread := h.opens.read_eq
  rw [OpenGroup.close_pushAll] at hread
  exact hread (Nat.le_trans (OpenGroup.levels_rowOf_le hparts) hdepth)

/-- Rows with bars between them are read as alternatives. -/
theorem read_alternatives (hne : texts ≠ []) (h : List.Forall₂ (ReadsAs false) texts rows)
    (hlevels : (OpenGroup.groupOf rows).levels ≤ maxLevels) :
    read (Text.join ['|'] texts) = .ok (OpenGroup.groupOf rows).value := by
  obtain ⟨lexs, hlexs, -, hread⟩ := reads_alternatives hne h
  obtain ⟨g, hg, hread⟩ := hread [] [] [] [] (by simp)
  have hclose := OpenGroup.close_eq_groupOf (hg.trans (List.append_nil _))
  have hopens : Opens (Text.join ['|'] texts) g := by
    refine ⟨lexs, hlexs.lexemes_eq, ?_⟩
    rw [← List.append_nil lexs, OpenGroup.start, hread, readGroup]
    rfl
  rw [hopens.read_eq (hclose ▸ hlevels), hclose]

end Lexicolor.Pattern
