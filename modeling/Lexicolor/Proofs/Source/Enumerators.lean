import Mathlib
import Lexicolor.Proofs.Grouping
import Lexicolor.Proofs.Source.Comments
import Lexicolor.Proofs.Source.EnumBody

/-!
# Enumerations as they are written

The enumerators of an enumeration are read back in order with all kinds of
comments between them, but the body ends at the first closing brace also where
that stands in a comment. Then the names before the brace are found, and of a
block comment with the brace the beginning is read as part of the enumerator.
-/

namespace Lexicolor.Source

open Text

variable {cs word : List Char}

/-! ## Enumerations -/

/-- Blanks and comments. -/
def Gap (pieces : List Piece) : Prop := Blank (codeOf pieces)

theorem IsName.plain (h : IsName word) : ∀ c ∈ word, c ≠ '/' ∧ c ≠ '\x7d' := fun _ hc =>
  ⟨ne_of_mem_of_not_mem hc (h.notMem (by decide)), ne_of_mem_of_not_mem hc (h.notMem (by decide))⟩

def comma : Piece := .plain [','] (by simp)

def equals : Piece := .plain ['='] (by simp)

/-- An enumerator as it is written, with or without a value. -/
structure Enumerator where
  left : List Piece
  gap_left : Gap left
  name : List Char
  isName : IsName name
  right : List Piece
  gap_right : Gap right
  value : Option (List Piece)
  noComma : ∀ pieces ∈ value, ',' ∉ codeOf pieces

namespace Enumerator

def initialiser (e : Enumerator) : List Piece :=
  match e.value with
  | none => []
  | some pieces => equals :: pieces

def pieces (e : Enumerator) : List Piece :=
  e.left ++ .plain e.name e.isName.plain :: (e.right ++ e.initialiser)

end Enumerator

/-- An enumeration as it is written. There may be a comma behind its last enumerator. -/
structure Enumeration where
  head : List Char
  isHead : EnumHead head
  entries : List Enumerator
  ne_nil : entries ≠ []
  trailing : Option (List Piece)
  gap_trailing : ∀ pieces ∈ trailing, Gap pieces

namespace Enumeration

/-- What stands between the commas. -/
def parts (e : Enumeration) : List (List Piece) :=
  e.entries.map Enumerator.pieces ++ e.trailing.toList

def body (e : Enumeration) : List Piece := [comma].intercalate e.parts

def text (e : Enumeration) : List Char := e.head ++ '\x7b' :: (textOf e.body ++ ['\x7d'])

def names (e : Enumeration) : List String := e.entries.map fun e => String.ofList e.name

end Enumeration

/-! ## Names -/

/-- The names in a text without comments: what stands before a value in each part between the
commas, if anything does. -/
def namesIn (code : List Char) : List (List Char) :=
  ((splitOn ',' code).map fun part => trim (before '=' part)).filter fun name => !name.isEmpty

theorem enumeratorNames_eq (cs : List Char) : enumeratorNames cs = namesIn (withoutComments cs) :=
  rfl

theorem namesIn_append (cs rest : List Char) :
    namesIn (cs ++ ',' :: rest) = namesIn cs ++ namesIn rest := by
  rw [namesIn, splitOn_append, List.map_append, List.filter_append]
  rfl

theorem namesIn_of_notMem (h : ',' ∉ cs) :
    namesIn cs = [trim (before '=' cs)].filter fun name => !name.isEmpty := by
  rw [namesIn, splitOn_of_notMem h, List.map_singleton]

theorem trim_of_blank (h : Blank cs) : trim cs = [] := by
  rw [trim, dropBlanks, List.dropWhile_eq_nil_iff.mpr h]
  rfl

theorem namesIn_of_blank (h : Blank cs) : namesIn cs = [] := by
  have hbefore : Blank (before '=' cs) := fun c hc => h c ((List.takeWhile_prefix _).subset hc)
  rw [namesIn_of_notMem (h.notMem (by decide)), trim_of_blank hbefore]
  rfl

@[simp] theorem namesIn_nil : namesIn [] = [] := rfl

/-- A name without the blanks around it. -/
theorem trim_name {left right : List Char} (hleft : Blank left) (hword : IsName word)
    (hright : Blank right) : trim (left ++ (word ++ right)) = word := by
  have hreverse : IsName word.reverse :=
    ⟨by simpa using hword.ne_nil, fun c hc => hword.chars c (List.mem_reverse.mp hc)⟩
  have hdrop : dropBlanks (left ++ (word ++ right)) = word ++ right :=
    (dropBlanks_eq_name_append_iff hword).mpr ⟨left, hleft, rfl⟩
  have hdropRight : dropBlanks (right.reverse ++ word.reverse) = word.reverse := by
    have h : dropBlanks (right.reverse ++ (word.reverse ++ [])) = word.reverse ++ [] :=
      (dropBlanks_eq_name_append_iff hreverse).mpr
        ⟨right.reverse, fun c hc => hright c (List.mem_reverse.mp hc), rfl⟩
    rwa [List.append_nil] at h
  rw [trim, hdrop, dropBlanksRight, List.reverse_append, hdropRight, List.reverse_reverse]

theorem mem_dropBlanks {c : Char} (hc : ¬isBlank c) (h : c ∈ cs) : c ∈ dropBlanks cs := by
  rw [← List.takeWhile_append_dropWhile (p := isBlank) (l := cs), List.mem_append] at h
  exact h.resolve_left fun hmem => hc (List.mem_takeWhile_imp hmem)

theorem mem_trim {c : Char} (hc : ¬isBlank c) (h : c ∈ cs) : c ∈ trim cs := by
  rw [trim, dropBlanksRight, List.mem_reverse]
  exact mem_dropBlanks hc (List.mem_reverse.mpr (mem_dropBlanks hc h))

/-- A slash before any comma and value belongs to a name. -/
theorem exists_namesIn_slash (hcomma : ',' ∉ cs) (hequals : '=' ∉ cs) (rest : List Char) :
    ∃ name names, namesIn (cs ++ '/' :: rest) = name :: names ∧ '/' ∈ name := by
  have hslash : ',' ∉ cs ++ ['/'] := by simp [hcomma]
  obtain ⟨part, parts, -, hsplit⟩ := exists_splitOn_append hslash rest
  have hmem : '/' ∈ trim (before '=' (cs ++ ['/'] ++ part)) := by
    apply mem_trim (by decide)
    rw [before, List.append_assoc, List.takeWhile_append_of_pos (decide_ne_of_notMem hequals)]
    simp
  have hcode : cs ++ '/' :: rest = cs ++ ['/'] ++ rest := by simp
  have hnames := congrArg (List.filter fun name => !name.isEmpty)
    (congrArg (List.map fun part => trim (before '=' part)) hsplit)
  rw [List.map_cons, List.filter_cons_of_pos (by simpa using List.ne_nil_of_mem hmem)] at hnames
  exact ⟨_, _, hcode ▸ hnames, hmem⟩

/-- Behind the start of a value, names stand behind commas only. -/
theorem namesIn_append_of_mem (hequals : '=' ∈ cs) (hcomma : ',' ∉ cs) (rest : List Char) :
    namesIn (cs ++ rest) = namesIn cs ++ namesIn (rest.dropWhile (· ≠ ',')) := by
  have hfirst {part : List Char} (hpart : ',' ∉ part) : namesIn (cs ++ part) = namesIn cs := by
    have hboth : ',' ∉ cs ++ part := by simp [hcomma, hpart]
    obtain ⟨front, back, rfl, hfront⟩ := List.eq_append_cons_of_mem hequals
    have hbefore (tail : List Char) : before '=' (front ++ '=' :: tail) = front :=
      takeWhile_append_of_head (decide_ne_of_notMem hfront) (by simp)
    rw [namesIn_of_notMem hcomma, namesIn_of_notMem hboth, List.append_assoc, List.cons_append,
      hbefore, hbefore]
  have hpart : ',' ∉ rest.takeWhile (· ≠ ',') := fun hmem => by
    simpa using List.mem_takeWhile_imp hmem
  have hrest : rest.takeWhile (· ≠ ',') ++ rest.dropWhile (· ≠ ',') = rest :=
    List.takeWhile_append_dropWhile
  cases hdrop : rest.dropWhile (· ≠ ',') with
  | nil =>
      rw [hdrop, List.append_nil] at hrest
      rw [← hrest, hfirst hpart, namesIn_nil, List.append_nil]
  | cons c more =>
      obtain rfl : c = ',' := by
        have hhead := List.head?_dropWhile_not (· ≠ ',') rest
        rw [hdrop] at hhead
        simpa using hhead
      rw [← hrest, hdrop, ← List.append_assoc, namesIn_append, hfirst hpart]
      rfl

theorem before_prefix (sep : Char) (cs rest : List Char) :
    before sep cs <+: before sep (cs ++ rest) := by
  rw [before, before, List.takeWhile_append]
  split
  next => exact (List.takeWhile_prefix _).trans (List.prefix_append _ _)
  next => exact List.prefix_rfl

theorem codeOf_append (pieces pieces' : List Piece) :
    codeOf (pieces ++ pieces') = codeOf pieces ++ codeOf pieces' := List.flatMap_append

theorem Gap.of_isPrefix {pieces part : List Piece} (h : Gap part) (hpieces : pieces <+: part) :
    Gap pieces := fun c hc => h c ((hpieces.flatMap Piece.code).subset hc)

section Broken

variable {pieces : List Piece} {content : List Char}

theorem exists_namesIn_broken (hcomma : ',' ∉ cs) (hequals : '=' ∉ cs) (content : List Char) :
    ∃ name names, namesIn (cs ++ brokenComment content) = name :: names ∧ '/' ∈ name :=
  exists_namesIn_slash hcomma hequals _

/-- In a gap that breaks off in a block comment, the beginning of the comment is read as a name. -/
theorem exists_namesIn_codeToBrace (hgap : Gap pieces) (h : BreaksIn pieces content) :
    ∃ name names, namesIn (codeToBrace pieces) = name :: names ∧ '/' ∈ name := by
  obtain ⟨before, hprefix, hcode⟩ := h.codeToBrace_eq
  have hblank := hgap.of_isPrefix hprefix
  rw [hcode]
  exact exists_namesIn_broken (Blank.notMem hblank (by decide)) (Blank.notMem hblank (by decide)) _

/-- In any other gap there is no name. -/
theorem namesIn_codeToBrace_eq_nil (hgap : Gap pieces) (h : ∀ content, ¬BreaksIn pieces content) :
    namesIn (codeToBrace pieces) = [] := by
  obtain ⟨before, hprefix, hcode⟩ := codeToBrace_of_not_breaksIn h
  rw [hcode, namesIn_of_blank (hgap.of_isPrefix hprefix)]

end Broken

namespace Enumerator

theorem comma_notMem_initialiser (e : Enumerator) : ',' ∉ codeOf e.initialiser := by
  rw [initialiser]
  split
  next => simp [codeOf]
  next pieces hvalue => simpa [codeOf, equals, Piece.code] using e.noComma pieces hvalue

/-- What stands between the name of an enumerator and its value is blank, also where it breaks
off. -/
theorem blank_right (e : Enumerator) {pieces : List Piece}
    (h : pieces <+: e.right ++ e.initialiser) : Blank (before '=' (codeOf pieces)) := by
  have hhead : ∀ c ∈ (codeOf e.initialiser).head?, ¬decide (c ≠ '=') = true := by
    cases hvalue : e.value <;> simp [initialiser, hvalue, codeOf, equals, Piece.code]
  have hright : '=' ∉ codeOf e.right := Blank.notMem e.gap_right (by decide)
  have hbefore : before '=' (codeOf (e.right ++ e.initialiser)) = codeOf e.right := by
    rw [codeOf_append]
    exact takeWhile_append_of_head (decide_ne_of_notMem hright) hhead
  obtain ⟨rest, hrest⟩ : codeOf pieces <+: codeOf (e.right ++ e.initialiser) := h.flatMap _
  have hstart := before_prefix '=' (codeOf pieces) rest
  rw [hrest, hbefore] at hstart
  exact fun c hc => e.gap_right c (hstart.subset hc)

/-- The code of an enumerator up to its name and what follows of it. -/
def codeWith (e : Enumerator) (pieces : List Piece) : List Char :=
  codeOf e.left ++ (e.name ++ codeOf pieces)

theorem comma_notMem (e : Enumerator) {pieces : List Piece}
    (h : pieces <+: e.right ++ e.initialiser) : ',' ∉ e.codeWith pieces := by
  have hsub : codeOf pieces <+: codeOf (e.right ++ e.initialiser) := h.flatMap _
  have hleft : ',' ∉ codeOf e.left := Blank.notMem e.gap_left (by decide)
  have hright : ',' ∉ codeOf e.right := Blank.notMem e.gap_right (by decide)
  have hname : ',' ∉ e.name := e.isName.notMem (by decide)
  have hpieces : ',' ∉ codeOf pieces := fun hmem => by
    have hmem := hsub.subset hmem
    rw [codeOf_append, List.mem_append] at hmem
    exact hmem.elim hright e.comma_notMem_initialiser
  simp [codeWith, hleft, hname, hpieces]

/-- An enumerator has its name, also where it breaks off behind the name. -/
theorem namesIn_codeWith (e : Enumerator) {pieces : List Piece}
    (h : pieces <+: e.right ++ e.initialiser) : namesIn (e.codeWith pieces) = [e.name] := by
  have hleft : '=' ∉ codeOf e.left := Blank.notMem e.gap_left (by decide)
  have hname : '=' ∉ e.name := e.isName.notMem (by decide)
  have hne : e.name.isEmpty = false := by simpa using e.isName.ne_nil
  rw [namesIn_of_notMem (e.comma_notMem h), codeWith, before,
    List.takeWhile_append_of_pos (decide_ne_of_notMem hleft),
    List.takeWhile_append_of_pos (decide_ne_of_notMem hname), ← before,
    trim_name e.gap_left e.isName (e.blank_right h), List.filter_cons_of_pos (by simp [hne]),
    List.filter_nil]

/-! ## Enumerators that break off -/

variable {e : Enumerator} {content : List Char}

theorem clear_name (e : Enumerator) : (Piece.plain e.name e.isName.plain).Clear := fun hmem =>
  (e.isName.plain _ hmem).2 rfl

theorem codeToBrace_pieces (h : ∀ piece ∈ e.left, piece.Clear) : codeToBrace e.pieces =
    codeOf e.left ++ (e.name ++ codeToBrace (e.right ++ e.initialiser)) := by
  rw [pieces, codeToBrace_append_of_clear h, codeToBrace, if_pos e.clear_name]
  rfl

/-- With the brace before the name, there is no name, or none that is right. -/
theorem namesIn_codeToBrace_left (h : ¬∀ piece ∈ e.left, piece.Clear) (names : List (List Char)) :
    namesIn (codeToBrace e.pieces) ≠ e.name :: names := by
  rw [pieces, codeToBrace_append_of_not_clear h]
  intro heq
  by_cases hbreak : ∃ content, BreaksIn e.left content
  · obtain ⟨content, hbreak⟩ := hbreak
    obtain ⟨name, others, hnames, hslash⟩ := exists_namesIn_codeToBrace e.gap_left hbreak
    rw [hnames, List.cons.injEq] at heq
    exact e.isName.notMem (by decide) (heq.1 ▸ hslash)
  · rw [namesIn_codeToBrace_eq_nil e.gap_left (not_exists.mp hbreak)] at heq
    cases heq

/-- With the brace in a line comment behind the name, there is the name. -/
theorem namesIn_codeToBrace_line (hleft : ∀ piece ∈ e.left, piece.Clear)
    (hline : ∀ content, ¬BreaksIn e.pieces content) :
    namesIn (codeToBrace e.pieces) = [e.name] := by
  have hright : ∀ content, ¬BreaksIn (e.right ++ e.initialiser) content := fun content hbreak =>
    hline content
      ((hbreak.append_left (List.forall_mem_singleton.mpr e.clear_name)).append_left hleft)
  obtain ⟨before, hprefix, hcode⟩ := codeToBrace_of_not_breaksIn hright
  rw [codeToBrace_pieces hleft, hcode]
  exact e.namesIn_codeWith hprefix

/-- With the brace in a block comment between the name and the value, the name is a longer one. -/
theorem namesIn_codeToBrace_right (hleft : ∀ piece ∈ e.left, piece.Clear)
    (h : BreaksIn e.right content) (names : List (List Char)) :
    namesIn (codeToBrace e.pieces) ≠ e.name :: names := by
  obtain ⟨before, hprefix, hcode⟩ := h.codeToBrace_eq
  have hgap := e.gap_right.of_isPrefix hprefix
  have hfront (c : Char) (hc : ¬isBlank c) (hident : ¬isIdentChar c) :
      c ∉ e.codeWith before := by
    simp [codeWith, Blank.notMem e.gap_left hc, Blank.notMem hgap hc, e.isName.notMem hident]
  obtain ⟨name, others, hnames, hslash⟩ := exists_namesIn_broken
    (hfront ',' (by decide) (by decide)) (hfront '=' (by decide) (by decide)) content
  have hpieces : codeToBrace e.pieces = e.codeWith before ++ brokenComment content := by
    rw [codeToBrace_pieces hleft, codeToBrace_append_of_not_clear h.not_clear, hcode, codeWith]
    simp
  rw [hpieces, hnames]
  intro heq
  exact e.isName.notMem (by decide) ((List.cons.inj heq).1 ▸ hslash)

/-- With the brace in a block comment in the value, there are the name and the names behind commas
in the comment. -/
theorem namesIn_codeToBrace_value {value : List Piece} (hleft : ∀ piece ∈ e.left, piece.Clear)
    (hright : ∀ piece ∈ e.right, piece.Clear) (hvalue : e.value = some value)
    (h : BreaksIn value content) : namesIn (codeToBrace e.pieces) =
      e.name :: namesIn ((brokenComment content).dropWhile (· ≠ ',')) := by
  obtain ⟨before, hprefix, hcode⟩ := h.codeToBrace_eq
  have hinitialiser : e.initialiser = equals :: value := by rw [initialiser, hvalue]
  have hequals : equals.Clear := by simp [equals, Piece.Clear, Piece.text]
  have hfront : e.right ++ equals :: before <+: e.right ++ e.initialiser := by
    rw [hinitialiser]
    exact (List.prefix_append_right_inj _).mpr ((List.prefix_cons_inj _).mpr hprefix)
  have hpieces : codeToBrace e.pieces =
      e.codeWith (e.right ++ equals :: before) ++ brokenComment content := by
    rw [codeToBrace_pieces hleft, codeToBrace_append_of_clear hright, hinitialiser, codeToBrace,
      if_pos hequals, hcode, codeWith, codeOf_append]
    simp [codeOf]
  have hmem : '=' ∈ e.codeWith (e.right ++ equals :: before) := by
    simp [codeWith, codeOf, equals, Piece.code]
  rw [hpieces, namesIn_append_of_mem hmem (e.comma_notMem hfront), e.namesIn_codeWith hfront,
    List.singleton_append]

end Enumerator

/-! ## Names up to a brace -/

/-- The names that are found if a text breaks off at its first closing brace: those of the
enumerators before, and what names are left in the one that breaks off. -/
def namesToBrace : List Enumerator → List Piece → List (List Char)
  | [], trailing => namesIn (codeToBrace trailing)
  | e :: es, trailing =>
      if ∀ piece ∈ e.pieces, piece.Clear then e.name :: namesToBrace es trailing
      else namesIn (codeToBrace e.pieces)

/-- The names that are found are all names. A closing brace may stand in a line comment behind the
last one. In a block comment it may stand in a value, if behind the commas in the comment stand just
the names that are missing. -/
inductive ReadsAll : List Enumerator → List Piece → Prop
  | trailing {trailing : List Piece} (h : ∀ content, ¬BreaksIn trailing content) :
      ReadsAll [] trailing
  | clear {e : Enumerator} {es : List Enumerator} {trailing : List Piece}
      (h : ∀ piece ∈ e.pieces, piece.Clear) (hrest : ReadsAll es trailing) :
      ReadsAll (e :: es) trailing
  | line {e : Enumerator} {trailing : List Piece} (hleft : ∀ piece ∈ e.left, piece.Clear)
      (hbroken : ¬∀ piece ∈ e.pieces, piece.Clear) (hline : ∀ content, ¬BreaksIn e.pieces content) :
      ReadsAll [e] trailing
  | value {e : Enumerator} {es : List Enumerator} {trailing value : List Piece}
      {content : List Char} (hleft : ∀ piece ∈ e.left, piece.Clear)
      (hright : ∀ piece ∈ e.right, piece.Clear) (hvalue : e.value = some value)
      (hbreak : BreaksIn value content)
      (hnames : namesIn ((brokenComment content).dropWhile (· ≠ ',')) = es.map Enumerator.name) :
      ReadsAll (e :: es) trailing

theorem Enumerator.codeOf_pieces (e : Enumerator) :
    codeOf e.pieces = e.codeWith (e.right ++ e.initialiser) := codeOf_append _ _

theorem namesIn_codeToBrace_trailing {trailing : List Piece} (hgap : Gap trailing) :
    namesIn (codeToBrace trailing) = [] ↔ ∀ content, ¬BreaksIn trailing content := by
  constructor
  · intro hnames content hbreak
    obtain ⟨name, others, heq, -⟩ := exists_namesIn_codeToBrace hgap hbreak
    rw [heq] at hnames
    cases hnames
  · exact namesIn_codeToBrace_eq_nil hgap

/-- A block comment with the brace stands before the name, or between name and value, or in the
value. -/
theorem Enumerator.breaksIn_cases {e : Enumerator} {content : List Char}
    (h : BreaksIn e.pieces content) :
    BreaksIn e.left content ∨ BreaksIn e.right content ∨
      (∀ piece ∈ e.right, piece.Clear) ∧ ∃ value, e.value = some value ∧
        BreaksIn value content := by
  rw [pieces, ← List.singleton_append] at h
  have hplain {text : List Char} {hfree} : ¬BreaksIn [.plain text hfree] content := fun h => by
    obtain ⟨hends, hmem, -⟩ := h.mem
    cases List.mem_singleton.mp hmem
  rcases h.of_append with hleft | ⟨-, h⟩
  · exact .inl hleft
  rcases (h.of_append.resolve_left hplain).2.of_append with hright | ⟨hright, h⟩
  · exact .inr (.inl hright)
  refine .inr (.inr ⟨hright, ?_⟩)
  rw [initialiser] at h
  split at h
  next => exact absurd (List.forall_mem_nil _) h.not_clear
  next value hvalue =>
    rw [← List.singleton_append] at h
    exact ⟨value, hvalue, (h.of_append.resolve_left hplain).2⟩

/-- Up to the value of an enumerator there is no closing brace but in its comments. -/
theorem Enumerator.breaksIn_pieces (e : Enumerator) {content : List Char} {value : List Piece}
    (hleft : ∀ piece ∈ e.left, piece.Clear) (hright : ∀ piece ∈ e.right, piece.Clear)
    (hvalue : e.value = some value) (h : BreaksIn value content) : BreaksIn e.pieces content := by
  have hequals : equals.Clear := by simp [equals, Piece.Clear, Piece.text]
  have hinitialiser : BreaksIn e.initialiser content := by
    rw [initialiser, hvalue]
    exact h.append_left (List.forall_mem_singleton.mpr hequals)
  have hbehind := (hinitialiser.append_left hright).append_left
    (List.forall_mem_singleton.mpr e.clear_name)
  exact hbehind.append_left hleft

/-- An enumerator that breaks off is the last one that is read. -/
theorem readsAll_of_namesIn {e : Enumerator} {es : List Enumerator} {trailing : List Piece}
    (hbroken : ¬∀ piece ∈ e.pieces, piece.Clear)
    (hnames : namesIn (codeToBrace e.pieces) = e.name :: es.map Enumerator.name) :
    ReadsAll (e :: es) trailing := by
  have hleft : ∀ piece ∈ e.left, piece.Clear :=
    by_contra fun hnot => e.namesIn_codeToBrace_left hnot _ hnames
  by_cases hbreak : ∃ content, BreaksIn e.pieces content
  · obtain ⟨content, hbreak⟩ := hbreak
    rcases e.breaksIn_cases hbreak with h | h | ⟨hright, value, hvalue, h⟩
    · exact absurd hleft h.not_clear
    · exact absurd hnames (e.namesIn_codeToBrace_right hleft h _)
    · rw [e.namesIn_codeToBrace_value hleft hright hvalue h, List.cons.injEq] at hnames
      exact .value hleft hright hvalue h hnames.2
  · have hline := not_exists.mp hbreak
    rw [e.namesIn_codeToBrace_line hleft hline, List.cons.injEq] at hnames
    obtain rfl : es = [] := List.map_eq_nil_iff.mp hnames.2.symm
    exact .line hleft hbroken hline

/-- All names are found exactly if a reading up to the brace gives all of them. -/
theorem namesToBrace_eq_iff (es : List Enumerator) {trailing : List Piece} (hgap : Gap trailing) :
    namesToBrace es trailing = es.map Enumerator.name ↔ ReadsAll es trailing := by
  constructor
  · intro h
    induction es with
    | nil => exact .trailing ((namesIn_codeToBrace_trailing hgap).mp h)
    | cons e es ih =>
        rw [namesToBrace, List.map_cons] at h
        split at h
        next hclear => exact .clear hclear (ih (List.cons.inj h).2)
        next hbroken => exact readsAll_of_namesIn hbroken h
  · intro h
    induction h with
    | trailing h => exact (namesIn_codeToBrace_trailing hgap).mpr h
    | clear h _ ih => rw [namesToBrace, if_pos h, ih hgap, List.map_cons]
    | line hleft hbroken hline =>
        rw [namesToBrace, if_neg hbroken]
        exact Enumerator.namesIn_codeToBrace_line hleft hline
    | @value e _ _ value _ hleft hright hvalue hbreak hnames =>
        have hbroken := (e.breaksIn_pieces hleft hright hvalue hbreak).not_clear
        rw [namesToBrace, if_neg hbroken, List.map_cons, ← hnames]
        exact e.namesIn_codeToBrace_value hleft hright hvalue hbreak

/-! ## The names of an enumeration -/

/-- The names between commas are those of the enumerators up to the brace. -/
theorem namesIn_codeToBrace_intercalate (es : List Enumerator) (trailing : Option (List Piece)) :
    namesIn (codeToBrace ([comma].intercalate (es.map Enumerator.pieces ++ trailing.toList))) =
      namesToBrace es (trailing.getD []) := by
  induction es with
  | nil => cases trailing <;> simp [namesToBrace]
  | cons e es ih =>
      have hcomma : comma.Clear := by simp [comma, Piece.Clear, Piece.text]
      have hname : namesIn (codeOf e.pieces) = [e.name] := by
        rw [e.codeOf_pieces, e.namesIn_codeWith List.prefix_rfl]
      rw [List.map_cons, List.cons_append, namesToBrace, ← ih]
      cases es.map Enumerator.pieces ++ trailing.toList with
      | nil =>
          rw [List.intercalate_singleton, List.intercalate_nil]
          split
          next hclear =>
            have hcode := codeToBrace_append_of_clear hclear []
            rw [List.append_nil] at hcode
            simp [hcode, codeToBrace, hname]
          next => rfl
      | cons part parts =>
          rw [List.intercalate_cons_cons, List.append_assoc]
          split
          next hclear =>
            have hnext (rest : List Piece) :
                codeToBrace (comma :: rest) = ',' :: codeToBrace rest := if_pos hcomma
            rw [codeToBrace_append_of_clear hclear, List.singleton_append, hnext, namesIn_append,
              hname, List.singleton_append]
          next hclear => rw [codeToBrace_append_of_not_clear hclear]

/-- No piece starts with a closing brace. -/
theorem head?_textOf_ne (pieces : List Piece) : ∀ c ∈ (textOf pieces).head?, c ≠ '\x7d' := by
  induction pieces with
  | nil => simp [textOf]
  | cons piece pieces ih =>
      cases piece with
      | plain text h =>
          cases text with
          | nil => exact ih
          | cons c text => simpa [textOf, Piece.text] using (h c List.mem_cons_self).2
      | line => simp [textOf, Piece.text]
      | block => simp [textOf, Piece.text]

theorem takeWhile_textOf_ne_nil {pieces : List Piece} (h : textOf pieces ≠ []) :
    (textOf pieces).takeWhile (· ≠ '\x7d') ≠ [] := by
  have hhead := head?_textOf_ne pieces
  obtain ⟨c, cs, heq⟩ := List.exists_cons_of_ne_nil h
  rw [heq] at hhead ⊢
  rw [List.takeWhile_cons_of_pos (by simpa using hhead)]
  exact List.cons_ne_nil _ _

namespace Enumeration

theorem textOf_body_ne_nil (e : Enumeration) : textOf e.body ≠ [] := by
  obtain ⟨first, more, hfirst⟩ := List.exists_cons_of_ne_nil e.ne_nil
  obtain ⟨rest, hrest⟩ : first.pieces <+: e.body := by
    rw [body, parts, hfirst, List.map_cons, List.cons_append]
    cases more.map Enumerator.pieces ++ e.trailing.toList with
    | nil => simp
    | cons next parts =>
        rw [List.intercalate_cons_cons, List.append_assoc]
        exact List.prefix_append _ _
  obtain ⟨c, name, hname⟩ := List.exists_cons_of_ne_nil first.isName.ne_nil
  simp [← hrest, textOf, Enumerator.pieces, Piece.text, hname]

/-- The names that are found in a header with the enumeration. -/
def found (e : Enumeration) : List String :=
  (namesToBrace e.entries (e.trailing.getD [])).map String.ofList

/-- All names of the enumeration are found, and nothing else. -/
def AllFound (e : Enumeration) : Prop := ReadsAll e.entries (e.trailing.getD [])

theorem found_eq_iff (e : Enumeration) : e.found = e.names ↔ e.AllFound := by
  have hmap : e.names = (e.entries.map Enumerator.name).map String.ofList := by simp [names]
  have hinj : Function.Injective String.ofList := fun _ _ => String.ofList_inj.mp
  have hgap : Gap (e.trailing.getD []) := by
    cases htrailing : e.trailing with
    | none => simp [Gap, Blank, codeOf]
    | some pieces => exact e.gap_trailing pieces htrailing
  rw [hmap, found, (List.map_injective_iff.mpr hinj).eq_iff, namesToBrace_eq_iff e.entries hgap,
    AllFound]

/-- What is found in a header with an enumeration. -/
theorem enumerators_text (e : Enumeration) {before after : List Char}
    (hbefore : ∀ head, EnumHead head → ¬head ++ ['\x7b'] <:+: before) :
    enumerators (String.ofList (before ++ (e.text ++ after))) = .ok e.found := by
  have htext : before ++ (e.text ++ after) =
      before ++ (e.head ++ '\x7b' :: (textOf e.body ++ '\x7d' :: after)) := by
    simp [text]
  have hnames : enumeratorNames ((textOf e.body).takeWhile (· ≠ '\x7d')) =
      namesToBrace e.entries (e.trailing.getD []) := by
    rw [enumeratorNames_eq, withoutComments_takeWhile]
    exact namesIn_codeToBrace_intercalate e.entries e.trailing
  rw [enumerators, String.toList_ofList, htext,
    first?_enumBody? e.isHead hbefore (takeWhile_textOf_ne_nil e.textOf_body_ne_nil)]
  exact congrArg (fun names => Except.ok (names.map String.ofList)) hnames

end Enumeration

/-- Without closing braces in block comments, all names are found exactly if no closing brace stands
before the last one. -/
theorem readsAll_iff_of_not_breaksIn {es : List Enumerator} {trailing : List Piece}
    (hentries : ∀ e ∈ es, ∀ content, ¬BreaksIn e.pieces content)
    (htrailing : ∀ content, ¬BreaksIn trailing content) :
    ReadsAll es trailing ↔ (∀ e ∈ es, ∀ piece ∈ e.left, piece.Clear) ∧
      ∀ e ∈ es.dropLast, ∀ piece ∈ e.pieces, piece.Clear := by
  induction es with
  | nil => exact iff_of_true (.trailing htrailing) (by simp)
  | cons e es ih =>
      obtain ⟨hline, hentries⟩ := List.forall_mem_cons.mp hentries
      constructor
      · intro h
        cases h with
        | clear hclear hrest =>
            obtain ⟨hleft, hpieces⟩ := (ih hentries).mp hrest
            have hfirst : ∀ piece ∈ e.left, piece.Clear := fun piece hmem =>
              hclear piece (List.mem_append_left _ hmem)
            refine ⟨List.forall_mem_cons.mpr ⟨hfirst, hleft⟩, ?_⟩
            cases es with
            | nil => simp
            | cons next es => exact List.forall_mem_cons.mpr ⟨hclear, hpieces⟩
        | line hleft => simpa using hleft
        | value hleft hright hvalue hbreak =>
            exact absurd (e.breaksIn_pieces hleft hright hvalue hbreak) (hline _)
      · intro ⟨hleft, hpieces⟩
        rw [List.forall_mem_cons] at hleft
        cases es with
        | nil =>
            by_cases hclear : ∀ piece ∈ e.pieces, piece.Clear
            · exact .clear hclear (.trailing htrailing)
            · exact .line hleft.1 hclear hline
        | cons next es =>
            rw [List.dropLast_cons_cons, List.forall_mem_cons] at hpieces
            exact .clear hpieces.1 ((ih hentries).mpr ⟨hleft.2, hpieces.2⟩)

theorem subset_intercalate {parts : List (List Piece)} {part : List Piece} (h : part ∈ parts) :
    part ⊆ [comma].intercalate parts := by
  induction parts with
  | nil => cases h
  | cons first parts ih =>
      cases parts with
      | nil =>
          rw [List.mem_singleton.mp h, List.intercalate_singleton]
          exact List.Subset.refl first
      | cons next parts =>
          rw [List.intercalate_cons_cons]
          rcases List.mem_cons.mp h with rfl | h
          · exact List.subset_append_of_subset_left _ (List.subset_append_left _ _)
          · exact List.subset_append_of_subset_right _ (ih h)

namespace Enumeration

/-- No closing brace stands before the last name. -/
def OpenToLastName (e : Enumeration) : Prop :=
  (∀ entry ∈ e.entries, ∀ piece ∈ entry.left, piece.Clear) ∧
    ∀ entry ∈ e.entries.dropLast, ∀ piece ∈ entry.pieces, piece.Clear

theorem allFound_iff_openToLastName (e : Enumeration)
    (hblock : ∀ content h, Piece.block content h ∈ e.body → '\x7d' ∉ content) :
    e.AllFound ↔ e.OpenToLastName := by
  have hpart {part : List Piece} (hpart : part ∈ e.parts) (content : List Char) :
      ¬BreaksIn part content := fun hbreak => by
    obtain ⟨hends, hmem, hbrace⟩ := hbreak.mem
    exact hblock content hends (subset_intercalate hpart hmem) hbrace
  apply readsAll_iff_of_not_breaksIn
  · intro entry hentry
    exact hpart (List.mem_append_left _ (List.mem_map_of_mem hentry))
  · cases htrailing : e.trailing with
    | none => exact fun content hbreak => hbreak.not_clear (List.forall_mem_nil _)
    | some pieces => exact hpart (List.mem_append_right _ (by simp [htrailing]))

/-- In a header with an enumeration the names up to the first closing brace are found, with what
names are left where it breaks off, and each has its scope. They are all names, in order, exactly if
the brace leaves all of them; where it is in no block comment, if it does not stand before the last
name. -/
theorem enumerators_text_iff (e : Enumeration) {before after : List Char}
    (hbefore : ∀ head, EnumHead head → ¬head ++ ['\x7b'] <:+: before) :
    enumerators (String.ofList (before ++ (e.text ++ after))) = .ok e.found ∧
    (enumerators (String.ofList (before ++ (e.text ++ after))) = .ok e.names ↔ e.AllFound) ∧
    (∃ table, classifications (String.ofList (before ++ (e.text ++ after))) = .ok table ∧
      table.entries = e.found.eraseDups.map fun name => (name, Scope.ofClassification name)) ∧
    ((∀ content h, Piece.block content h ∈ e.body → '\x7d' ∉ content) →
      (e.AllFound ↔ e.OpenToLastName)) := by
  rw [classifications, e.enumerators_text hbefore]
  refine ⟨rfl, ?_, ⟨_, rfl, ?_⟩, e.allFound_iff_openToLastName⟩
  · rw [Except.ok.injEq, e.found_eq_iff]
  · exact Table.entries_ofList_map Scope.ofClassification e.found

/-- An enumerator with marks in the comments around it. -/
def markedType : Enumerator where
  left := [.block " A, B = \x7b ".toList (by decide +kernel)]
  gap_left := by simp [Gap, Blank, codeOf, Piece.code]
  name := "EClassification_Type".toList
  isName := ⟨by simp, by simp [isIdentChar]⟩
  right := [.line " ,".toList (by simp)]
  gap_right := by simp [Gap, Blank, codeOf, Piece.code, isBlank]
  value := some [.plain " 5".toList (by simp)]
  noComma := by simp [codeOf, Piece.code]

/-- A value with a closing brace in a comment. -/
def bracedValue : List Piece :=
  [.plain ['6'] (by simp), .block " , \x7d ".toList (by decide +kernel)]

def bracedEnum : Enumerator where
  left := [.plain [' '] (by simp)]
  gap_left := by simp [Gap, Blank, codeOf, Piece.code, isBlank]
  name := "EClassification_Enum".toList
  isName := ⟨by simp, by simp [isIdentChar]⟩
  right := []
  gap_right := by simp [Gap, Blank, codeOf]
  value := some bracedValue
  noComma := by simp [bracedValue, codeOf, Piece.code]

theorem enumHead_uint8 {after : List Char} (hafter : Blank after) :
    EnumHead ("enum class EClassification : uint8".toList ++ after) := by
  have hblank : Blank [' '] := by simp [Blank, isBlank]
  have htype : Underlying ([' '] ++ ':' :: ([' '] ++ ("uint8".toList ++ after))) :=
    .type hblank hblank (by simp) (by simp [isIdentChar]) hafter
  exact .intro hblank (by simp) hblank (by simp) htype

def markedEnumeration : Enumeration where
  head := "enum class EClassification : uint8".toList ++ [' ']
  isHead := enumHead_uint8 (by simp [Blank, isBlank])
  entries := [markedType, bracedEnum]
  ne_nil := List.cons_ne_nil _ _
  trailing := some [.line " \x7d".toList (by simp)]
  gap_trailing := by simp [Gap, Blank, codeOf, Piece.code, isBlank]

theorem enumerators_marks :
    enumerators ("enum class EClassification : uint8 \x7b/* A, B = \x7b */EClassification_Type" ++
      "// ,\n= 5, EClassification_Enum=6/* , \x7d */,// \x7d\n\x7d;") =
        .ok ["EClassification_Type", "EClassification_Enum"] := by
  have hclear : ∀ piece ∈ markedType.pieces, piece.Clear := by
    simp [markedType, Enumerator.pieces, Enumerator.initialiser, equals, Piece.Clear, Piece.text]
  have hbreak : BreaksIn bracedValue " , \x7d ".toList :=
    ⟨[.plain ['6'] (by simp)], by decide +kernel, [], rfl, by simp [Piece.Clear, Piece.text],
      by simp⟩
  have hall : markedEnumeration.AllFound :=
    .clear hclear (.value (by simp [bracedEnum, Piece.Clear, Piece.text]) (by simp [bracedEnum])
      rfl hbreak (by decide +kernel))
  have hnames := (@enumerators_text_iff markedEnumeration [] [';'] (by simp)).2.1.mpr hall
  have htext : [] ++ (markedEnumeration.text ++ [';']) =
      ("enum class EClassification : uint8 \x7b/* A, B = \x7b */EClassification_Type" ++
        "// ,\n= 5, EClassification_Enum=6/* , \x7d */,// \x7d\n\x7d;").toList := by
    decide +kernel
  rw [htext, String.ofList_toList] at hnames
  exact hnames.trans (by decide +kernel)

/-- Of a block comment that breaks off, the beginning is read as part of a name. -/
example : enumerators "enum class EClassification \x7b A /* x, \x7d */, B \x7d;" =
    .ok ["A /* x"] := by
  cbv

def plainType : Enumerator where
  left := [.plain "\n    ".toList (by simp)]
  gap_left := by simp [Gap, Blank, codeOf, Piece.code, isBlank]
  name := "EClassification_Type".toList
  isName := ⟨by simp, by simp [isIdentChar]⟩
  right := []
  gap_right := by simp [Gap, Blank, codeOf]
  value := none
  noComma := by simp

/-- An enumerator behind a comment with a closing brace. -/
def hiddenFunction : Enumerator where
  left := [.plain [' '] (by simp), .line " struct \x7b\x7d".toList (by simp),
    .plain "    ".toList (by simp)]
  gap_left := by simp [Gap, Blank, codeOf, Piece.code, isBlank]
  name := "EClassification_Function".toList
  isName := ⟨by simp, by simp [isIdentChar]⟩
  right := [.plain ['\n'] (by simp)]
  gap_right := by simp [Gap, Blank, codeOf, Piece.code, isBlank]
  value := none
  noComma := by simp

def cutEnumeration : Enumeration where
  head := "enum class EClassification : uint8".toList ++ ['\n']
  isHead := enumHead_uint8 (by simp [Blank, isBlank])
  entries := [plainType, hiddenFunction]
  ne_nil := List.cons_ne_nil _ _
  trailing := none
  gap_trailing := by simp

/-- A closing brace in a comment loses the names behind it. -/
theorem not_forall_enumerators_text : ¬∀ (e : Enumeration) (before after : List Char),
    (∀ head, EnumHead head → ¬head ++ ['\x7b'] <:+: before) →
      enumerators (String.ofList (before ++ (e.text ++ after))) = .ok e.names := by
  intro h
  have hnames := h cutEnumeration [] ";\n".toList (by simp)
  rw [cutEnumeration.enumerators_text (by simp), Except.ok.injEq] at hnames
  exact absurd hnames (by decide +kernel)

end Enumeration

end Lexicolor.Source
