import Mathlib
import Lexicolor.Proofs.Text.Lines
import Lexicolor.Proofs.Token.Excluded

/-!
# Comments of a whole text

The lines of a text are searched for comments one by one, with a flag handed on
from each to the next. The comments found are those of one reading of the whole
text from left to right.
-/

namespace Lexicolor.Token

open Text

/-- Where a reading of a text stands. -/
inductive Mode where
  | code
  /-- In a comment up to the end of the line. -/
  | remark
  | block
  deriving DecidableEq

/-- Reads a text from left to right: for each character whether a comment holds it, and where the
reading stands behind the text. Markers in strings count like all others. -/
def scan : Mode → List Char → Mask × Mode
  | mode, [] => ([], mode)
  | .code, '/' :: '/' :: cs => prepend [true, true] (scan .remark cs)
  | .code, '/' :: '*' :: cs => prepend [true, true] (scan .block cs)
  | .code, _ :: cs => prepend [false] (scan .code cs)
  | .remark, '\n' :: cs => prepend [false] (scan .code cs)
  | .remark, _ :: cs => prepend [true] (scan .remark cs)
  | .block, '*' :: '/' :: cs => prepend [true, true] (scan .code cs)
  | .block, _ :: cs => prepend [true] (scan .block cs)

variable {mode : Mode} {before line after cs : List Char} {inBlock : Bool} {i : Nat}

@[simp] theorem length_scan (mode : Mode) (cs : List Char) :
    (scan mode cs).1.length = cs.length := by
  fun_induction scan mode cs <;> simp_all [prepend, Nat.add_comm]

/-- The text does not begin with a character of a marker. -/
def StandsOff (cs : List Char) : Prop := ∀ c, cs.head? = some c → c ≠ '/' ∧ c ≠ '*'

/-- A marker that begins before such a text also ends before it. -/
theorem StandsOff.not_across {d : Char} (h : StandsOff after) (hd : d = '/' ∨ d = '*')
    (hbefore : ∀ tail, before = d :: tail → False) (tail : List Char)
    (heq : before ++ after = d :: tail) : False := by
  cases before with
  | nil =>
      obtain ⟨hslash, hstar⟩ := h d (congrArg List.head? heq)
      exact hd.elim hslash hstar
  | cons c before =>
      obtain ⟨rfl, -⟩ := List.cons.inj heq
      exact hbefore before rfl

/-- The two parts of a text are read one after the other, where no marker stands across. -/
theorem scan_append (h : StandsOff after) (mode : Mode) (before : List Char) :
    scan mode (before ++ after) =
      prepend (scan mode before).1 (scan (scan mode before).2 after) := by
  fun_induction scan mode before
  case case1 => rfl
  case case2 cs ih => exact (congrArg (prepend [true, true]) ih).trans (prepend_prepend ..)
  case case3 cs ih => exact (congrArg (prepend [true, true]) ih).trans (prepend_prepend ..)
  case case4 c cs hremark hblock ih =>
    rw [List.cons_append, scan, ih, prepend_prepend]
    · rfl
    · rintro tail rfl
      exact h.not_across (.inl rfl) (fun tail => hremark tail rfl) tail
    · rintro tail rfl
      exact h.not_across (.inr rfl) (fun tail => hblock tail rfl) tail
  case case5 cs ih => exact (congrArg (prepend [false]) ih).trans (prepend_prepend ..)
  case case6 c cs hc ih =>
    rw [List.cons_append, scan, ih, prepend_prepend]
    · rfl
    · exact hc
  case case7 cs ih => exact (congrArg (prepend [true, true]) ih).trans (prepend_prepend ..)
  case case8 c cs hclose ih =>
    rw [List.cons_append, scan, ih, prepend_prepend]
    · rfl
    · rintro tail rfl
      exact h.not_across (.inl rfl) (fun tail => hclose tail rfl) tail

/-! ## Lines -/

/-- How the reading stands at the start of a line. -/
def lineMode (inBlock : Bool) : Mode := if inBlock then .block else .code

theorem lineMode_injective : Function.Injective lineMode := by
  intro inBlock inBlock' h
  cases inBlock <;> cases inBlock' <;> trivial

/-- How the reading stands behind the end of a line. -/
def Mode.onNextLine (mode : Mode) : Mode := lineMode (mode = .block)

theorem standsOff_feed (cs : List Char) : StandsOff ('\n' :: cs) := by
  rintro c ⟨⟩
  decide

theorem standsOff_return (cs : List Char) : StandsOff ('\r' :: cs) := by
  rintro c ⟨⟩
  decide

/-- The end of a line ends a comment up to it, and no other. -/
theorem scan_feed (mode : Mode) (cs : List Char) :
    scan mode ('\n' :: cs) = prepend [mode = .block] (scan mode.onNextLine cs) := by
  cases mode with
  | code =>
      rw [scan]
      · rfl
      · exact fun _ hc => by cases hc
      · exact fun _ hc => by cases hc
  | remark => rfl
  | block =>
      rw [scan]
      · rfl
      · exact fun _ hc => by cases hc

theorem scan_remark (hline : '\n' ∉ line) :
    scan .remark line = (line.map fun _ => true, .remark) := by
  induction line with
  | nil => rfl
  | cons c line ih =>
      obtain ⟨hc, hline⟩ := not_or.mp (mt List.mem_cons.mpr hline)
      rw [scan, ih hline]
      · rfl
      · exact Ne.symm hc

/-- The reading of a line marks what the rule for lines marks, and stands behind it as the flag
tells. -/
def Follows (read : Mask × Mode) (found : Mask × Bool) : Prop :=
  read.1 = found.1 ∧ read.2.onNextLine = lineMode found.2

theorem Follows.prepend {read : Mask × Mode} {found : Mask × Bool} (h : Follows read found)
    (marks : Mask) : Follows (prepend marks read) (prepend marks found) :=
  ⟨congrArg (marks ++ ·) h.1, h.2⟩

theorem follows_scan (hline : '\n' ∉ line) (inBlock : Bool) :
    Follows (scan (lineMode inBlock) line) (commentMask inBlock line) := by
  -- a line without a feed never leaves a remark, so the two readings agree step by step
  induction inBlock, line using commentMask.induct with
  | case1 inBlock => cases inBlock <;> exact ⟨rfl, rfl⟩
  | case2 cs mask flag _ ih =>
      exact (ih fun hmem => hline (by simp [hmem])).prepend [true, true]
  | case3 c cs hclose mask flag _ ih =>
      rw [commentMask_block_cons (by rintro after ⟨⟩; exact hclose after rfl rfl), lineMode,
        if_pos rfl, scan]
      · exact (ih fun hmem => hline (by simp [hmem])).prepend [true]
      · exact hclose
  | case4 cs mask flag _ ih =>
      exact (ih fun hmem => hline (by simp [hmem])).prepend [true, true]
  | case5 cs =>
      have hscan : scan .remark cs = _ := scan_remark fun hmem => hline (by simp [hmem])
      show Follows (Token.prepend [true, true] (scan .remark cs)) _
      rw [hscan]
      exact ⟨rfl, rfl⟩
  | case6 c cs hblock hremark mask flag _ ih =>
      rw [commentMask_code_cons (by rintro after ⟨⟩; exact hblock after rfl rfl)
        (by rintro after ⟨⟩; exact hremark after rfl rfl), lineMode, if_neg Bool.false_ne_true, scan]
      · exact (ih fun hmem => hline (by simp [hmem])).prepend [false]
      · exact hremark
      · exact hblock

/-! ## Places in a text -/

theorem scan_chopReturn (mode : Mode) (line : List Char) :
    (scan mode (chopReturn line)).2 = (scan mode line).2 := by
  have hreturn (mode : Mode) : (scan mode ['\r']).2 = mode := by cases mode <;> rfl
  rcases chopReturn_cases line with heq | heq
  · rw [heq]
  · nth_rewrite 2 [heq]
    rw [scan_append (standsOff_return []), prepend, hreturn]

/-- Behind a line the reading goes on as the flag tells. -/
theorem exists_scan_feed (h : '\n' ∉ line) (inBlock : Bool) :
    ∃ marks, ∀ rest, scan (lineMode inBlock) (line ++ '\n' :: rest) =
      prepend marks (scan (lineMode (commentMask inBlock (chopReturn line)).2) rest) := by
  have hflag := (follows_scan (notMem_chopReturn h) inBlock).2
  rw [scan_chopReturn] at hflag
  refine ⟨(scan (lineMode inBlock) line).1 ++ [decide ((scan (lineMode inBlock) line).2 = .block)],
    fun rest => ?_⟩
  rw [scan_append (standsOff_feed rest), scan_feed, hflag, prepend_prepend]

/-- The flag that is handed on behind lines tells how the reading stands there. -/
theorem scan_ended (h : Ended before) (inBlock : Bool) :
    (scan (lineMode inBlock) before).2 = lineMode (blockAfter inBlock (lines before)) := by
  induction h generalizing inBlock with
  | nil =>
      rw [lines_nil]
      rfl
  | line hfirst hrest ih =>
      obtain ⟨marks, hscan⟩ := exists_scan_feed hfirst inBlock
      rw [hscan, lines_feed hfirst]
      exact ih _

theorem scan_append_of_ended (h : Ended before) (inBlock : Bool) (cs : List Char) :
    scan (lineMode inBlock) (before ++ cs) =
      prepend (scan (lineMode inBlock) before).1
        (scan (lineMode (blockAfter inBlock (lines before))) cs) := by
  induction h generalizing inBlock with
  | nil =>
      rw [lines_nil]
      rfl
  | line hfirst hrest ih =>
      obtain ⟨marks, hscan⟩ := exists_scan_feed hfirst inBlock
      rw [List.append_assoc, List.cons_append, hscan, hscan, ih, lines_feed hfirst, prepend_prepend]
      rfl

theorem standsOff_of_lineAt {text : List Char} (h : LineAt text i before line after) :
    StandsOff after := by
  rcases h.stops with rfl | ⟨rest, rfl | rfl⟩
  · rintro c ⟨⟩
  · exact standsOff_feed rest
  · exact standsOff_return ('\n' :: rest)

/-- What the reading of a text marks on a line, and how it stands behind the line. -/
theorem scan_lineAt {text : List Char} (h : LineAt text i before line after) :
    let found := commentMask (blockAfter false ((lines text).take i)) line
    (∀ column < line.length, (scan .code text).1[before.length + column]? = found.1[column]?) ∧
      (scan .code (before ++ line)).2.onNextLine = lineMode found.2 := by
  intro found
  have hfollows := follows_scan h.notMem (blockAfter false ((lines text).take i))
  have hstart (cs : List Char) := scan_append_of_ended h.ended false cs
  rw [h.lines_before] at hstart
  constructor
  · intro column hcolumn
    have htext := hstart (line ++ after)
    rw [← h.eq] at htext
    rw [show scan .code text = _ from htext, prepend, List.getElem?_append_right (by simp), length_scan,
      scan_append (standsOff_of_lineAt h), prepend,
      hfollows.1, Nat.add_sub_cancel_left]
    exact List.getElem?_append_left (by simpa using hcolumn)
  · rw [show scan .code (before ++ line) = _ from hstart line]
    exact hfollows.2

/-! ## The comments of the lines -/

/-- The flag that is handed on behind some lines, when each of them has been searched. -/
def flagAfter (lines : List (List Char)) : Bool :=
  lines.foldl (fun inBlock line => (excluded inBlock line).2) false

theorem flagAfter_eq (lines : List (List Char)) : flagAfter lines = blockAfter false lines := by
  simp only [flagAfter, blockAfter, excluded_snd]

theorem getElem?_regionMask (regions : List Region) (offset : Nat) {column : Nat}
    (h : column < line.length) : (regionMask regions offset line)[column]? = some true ↔
      ∃ region ∈ regions, region.holds (offset + byteLength (line.take column)) := by
  induction line generalizing offset column with
  | nil => cases h
  | cons c line ih =>
      rw [regionMask]
      cases column with
      | zero => simp
      | succ column =>
          rw [List.getElem?_cons_succ, ih _ (Nat.lt_of_succ_lt_succ h), List.take_succ_cons,
            byteLength_cons, Nat.add_assoc]

/-- On every line of a text the searches succeed, each gets ahead, and the line is cut between its
characters only. The comments found stand in order and apart. They hold the characters that the
reading of the whole text marks, and the flag behind the line tells whether the reading stands in a
block comment there. -/
theorem comments_scan (text : String) (line : List Char)
    (h : (lines text.toList)[i]? = some line) :
    let inBlock := flagAfter ((lines text.toList).take i)
    let regions := (comments inBlock line).1
    (∀ start flag, CutsAt line start →
      ∃ found, searchComment? line start flag = some found ∧ found.GoesOn line start) ∧
    commentsFrom? line 0 inBlock = some (comments inBlock line) ∧
    (∀ region ∈ regions, region.Within line) ∧
    regions.Pairwise (fun region region' => region.stop ≤ region'.start) ∧
    ∃ before after, LineAt text.toList i before line after ∧
      (∀ column < line.length,
        (∃ region ∈ regions, region.holds (byteLength (line.take column))) ↔
          (scan .code text.toList).1[before.length + column]? = some true) ∧
      ((excluded inBlock line).2 ↔ (scan .code (before ++ line)).2 = .block) := by
  intro inBlock regions
  obtain ⟨before, after, hplace⟩ := exists_lineAt h
  obtain ⟨hdescribes, -⟩ := describes_comments inBlock line
  obtain ⟨hmarks, hflag⟩ := scan_lineAt hplace
  rw [← flagAfter_eq] at hmarks hflag
  refine ⟨fun start flag hcuts => exists_searchComment? flag hcuts,
    commentsFrom?_eq inBlock line, hdescribes.within, hdescribes.apart, before, after, hplace,
    fun column hcolumn => ?_, ?_⟩
  · have hregions := getElem?_regionMask regions 0 hcolumn
    rw [hmarks column hcolumn, ← hdescribes.mask]
    simpa using hregions.symm
  · rw [excluded_snd, ← lineMode_injective hflag, decide_eq_true_iff]

/-- An opener whose slash closes nothing, and a block comment that ends on the second line. -/
def notes : String := "a /*/ ä\n*/ b // c"

theorem comments_scan_notes :
    let line := ['*', '/', ' ', 'b', ' ', '/', '/', ' ', 'c']
    (lines notes.toList)[1]? = some line ∧ flagAfter ((lines notes.toList).take 1) = true ∧
      (comments true line).1 = [⟨0, 2⟩, ⟨5, 9⟩] ∧
      ∃ before after, LineAt notes.toList 1 before line after ∧ ∀ column < 9,
        (∃ region ∈ [Region.mk 0 2, ⟨5, 9⟩], region.holds (byteLength (line.take column))) ↔
          (scan .code notes.toList).1[before.length + column]? = some true := by
  intro line
  have hline : (lines notes.toList)[1]? = some line := by cbv
  have hflag : flagAfter ((lines notes.toList).take 1) = true := by cbv
  have hregions : (comments true line).1 = [⟨0, 2⟩, ⟨5, 9⟩] := by cbv
  obtain ⟨-, -, -, -, before, after, hplace, hmarks, -⟩ := comments_scan notes line hline
  rw [hflag, hregions] at hmarks
  exact ⟨hline, hflag, hregions, before, after, hplace, hmarks⟩

end Lexicolor.Token
