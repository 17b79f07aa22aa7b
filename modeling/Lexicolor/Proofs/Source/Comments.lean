import Mathlib
import Lexicolor.Proofs.Text.Joining
import Lexicolor.Source.Enumerators

/-!
# Texts with comments

A text with comments is a row of plain texts and comments. Without its comments
it is the plain texts and the line feeds. A text that breaks off at a closing
brace in a comment is, without its comments, the row before that comment, and
the beginning of the comment if it is a block comment, which is not closed then.
-/

namespace Lexicolor.Source

open Text

variable {c : Char} {cs rest content : List Char}

/-- A plain text, a comment up to the end of its line, or one up to its end mark. -/
inductive Piece
  | plain (text : List Char) (h : ∀ c ∈ text, c ≠ '/' ∧ c ≠ '\x7d')
  | line (content : List Char) (h : '\n' ∉ content)
  | block (content : List Char) (h : ¬['*', '/'] <:+: content)

namespace Piece

def text : Piece → List Char
  | plain text _ => text
  | line content _ => '/' :: '/' :: (content ++ ['\n'])
  | block content _ => '/' :: '*' :: (content ++ ['*', '/'])

/-- What is left without the comment. -/
def code : Piece → List Char
  | plain text _ => text
  | line _ _ => ['\n']
  | block _ _ => []

/-- There is no closing brace in the piece. -/
def Clear (piece : Piece) : Prop := '\x7d' ∉ piece.text

instance : DecidablePred Clear := fun piece => inferInstanceAs (Decidable ('\x7d' ∉ piece.text))

end Piece

variable {piece : Piece} {pieces : List Piece} {line : List Char}

def textOf (pieces : List Piece) : List Char := pieces.flatMap Piece.text

def codeOf (pieces : List Piece) : List Char := pieces.flatMap Piece.code

/-! ## One comment -/

theorem comment?_line (h : '\n' ∉ content) (hrest : ∀ c ∈ rest.head?, c = '\n') :
    comment? ('/' :: '/' :: (content ++ rest)) = some rest := by
  have hdrop : (content ++ rest).dropWhile (· ≠ '\n') = rest :=
    dropWhile_append_of_head (decide_ne_of_notMem h) (by simpa using hrest)
  exact congrArg some hdrop

theorem comment?_block (h : ¬['*', '/'] <:+: content) (rest : List Char) :
    comment? ('/' :: '*' :: (content ++ '*' :: '/' :: rest)) = some rest := by
  have hend : ¬['*', '/'] <:+: content ++ ['*'] := by
    rw [List.infix_concat_iff, not_or]
    refine ⟨?_, h⟩
    rintro ⟨before, heq⟩
    simpa using congrArg List.getLast? heq
  have hcut : cut? ['*', '/'] (content ++ (['*', '/'] ++ rest)) = some (content, rest) :=
    cut?_append (List.cons_ne_nil _ _) hend
  exact congrArg (Option.map Prod.snd) hcut

theorem comment?_of_ne (h : c ≠ '/') (cs : List Char) : comment? (c :: cs) = none := by
  simp [comment?, after?, Ne.symm h]

theorem withoutComments_of_comment? (h : comment? cs = some rest) :
    withoutComments cs = withoutComments rest := by
  cases cs with
  | nil => cases h
  | cons c cs =>
      rw [withoutComments]
      split
      next hsome => rw [Option.some.inj (hsome.symm.trans h)]
      next hnone => cases hnone.symm.trans h

theorem withoutComments_cons (h : comment? (c :: cs) = none) :
    withoutComments (c :: cs) = c :: withoutComments cs := by
  rw [withoutComments]
  split
  next hsome => cases h.symm.trans hsome
  next => rfl

theorem withoutComments_append (h : ∀ c ∈ cs, c ≠ '/') (rest : List Char) :
    withoutComments (cs ++ rest) = cs ++ withoutComments rest := by
  induction cs with
  | nil => rfl
  | cons c cs ih =>
      obtain ⟨hc, h⟩ := List.forall_mem_cons.mp h
      rw [List.cons_append, withoutComments_cons (comment?_of_ne hc _), ih h, List.cons_append]

/-! ## Rows of pieces -/

theorem withoutComments_text_append (piece : Piece) (rest : List Char) :
    withoutComments (piece.text ++ rest) = piece.code ++ withoutComments rest := by
  cases piece with
  | plain text h => exact withoutComments_append (fun c hc => (h c hc).1) rest
  | line content h =>
      have hfeed : withoutComments ('\n' :: rest) = '\n' :: withoutComments rest :=
        @withoutComments_append ['\n'] (by simp) rest
      rw [Piece.text, Piece.code, List.cons_append, List.cons_append, List.append_assoc,
        withoutComments_of_comment? (comment?_line h (by simp)), List.singleton_append, hfeed]
      rfl
  | block content h =>
      rw [Piece.text, Piece.code, List.cons_append, List.cons_append, List.append_assoc]
      exact withoutComments_of_comment? (comment?_block h rest)

/-! ## Texts in which no comment ends -/

/-- A line up to its first two slashes. -/
def beforeSlashes (line : List Char) : List Char :=
  ((cut? ['/', '/'] line).map Prod.fst).getD line

/-- The text without its remarks, which go from two slashes to the end of the line. -/
def withoutRemarks (cs : List Char) : List Char :=
  join ['\n'] ((splitOn '\n' cs).map beforeSlashes)

theorem beforeSlashes_cons (h : ¬['/', '/'] <+: c :: cs) :
    beforeSlashes (c :: cs) = c :: beforeSlashes cs := by
  rcases cut?_cons_cases ['/', '/'] c cs with ⟨after, heq, -⟩ | ⟨-, hcut⟩
  · exact absurd ⟨after, heq.symm⟩ h
  · rw [beforeSlashes, hcut, beforeSlashes]
    cases cut? ['/', '/'] cs <;> rfl

/-- Where no comment ends, only two slashes begin one. -/
theorem comment?_of_not_isInfix (hends : ¬['*', '/'] <:+: c :: cs)
    (hslashes : ¬['/', '/'] <+: c :: cs) : comment? (c :: cs) = none := by
  rw [comment?]
  split
  next rest hrest =>
    refine Option.map_eq_none_iff.mpr (cut?_eq_none fun hmark => hends ?_)
    rw [after?_eq_some_iff.mp hrest]
    exact hmark.trans (List.suffix_append ['/', '*'] rest).isInfix
  next =>
    rw [Option.map_eq_none_iff, Option.eq_none_iff_forall_ne_some]
    intro rest hrest
    exact hslashes ⟨rest, (after?_eq_some_iff.mp hrest).symm⟩

/-- A line has two slashes where the text has them. -/
theorem slashes_prefix_line (hrest : ∀ c ∈ rest.head?, c = '\n')
    (h : ['/', '/'] <+: c :: (line ++ rest)) : ['/', '/'] <+: c :: line := by
  obtain ⟨rfl, hnext⟩ := List.cons_prefix_cons.mp h
  cases line with
  | nil =>
      obtain ⟨more, rfl⟩ := hnext
      exact absurd (hrest '/' rfl) (by decide)
  | cons d line => exact List.cons_prefix_cons.mpr ⟨rfl, by simpa using hnext⟩

theorem withoutComments_line (hline : '\n' ∉ line) (hrest : ∀ c ∈ rest.head?, c = '\n')
    (hends : ¬['*', '/'] <:+: line ++ rest) :
    withoutComments (line ++ rest) = beforeSlashes line ++ withoutComments rest := by
  induction line with
  | nil => rfl
  | cons c line ih =>
      rw [List.mem_cons, not_or] at hline
      by_cases hslashes : ['/', '/'] <+: c :: line
      · obtain ⟨remark, heq⟩ := hslashes
        obtain ⟨rfl, rfl⟩ := List.cons.inj heq
        have hnone : beforeSlashes ('/' :: '/' :: remark) = [] := by
          simp [beforeSlashes, cut?, after?]
        have hremark : '\n' ∉ remark := fun hmem => hline.2 (List.mem_cons_of_mem _ hmem)
        exact hnone ▸ withoutComments_of_comment? (comment?_line hremark hrest)
      · rw [List.cons_append] at hends ⊢
        have hnone : comment? (c :: (line ++ rest)) = none :=
          comment?_of_not_isInfix hends (mt (slashes_prefix_line hrest) hslashes)
        rw [withoutComments_cons hnone, beforeSlashes_cons hslashes, List.cons_append,
          ih hline.2 fun hmark => hends (hmark.trans (List.suffix_cons c _).isInfix)]

theorem withoutComments_join {lines : List (List Char)} (hne : lines ≠ [])
    (hlines : ∀ line ∈ lines, '\n' ∉ line) (hends : ¬['*', '/'] <:+: join ['\n'] lines) :
    withoutComments (join ['\n'] lines) = join ['\n'] (lines.map beforeSlashes) := by
  induction lines with
  | nil => exact absurd rfl hne
  | cons line lines ih =>
      obtain ⟨hline, hlines⟩ := List.forall_mem_cons.mp hlines
      cases lines with
      | nil =>
          simp only [join_singleton, List.map_cons, List.map_nil] at hends ⊢
          have hsingle : withoutComments (line ++ []) = beforeSlashes line ++ withoutComments [] :=
            withoutComments_line hline (by simp) (by rwa [List.append_nil])
          rwa [withoutComments, List.append_nil, List.append_nil] at hsingle
      | cons next lines =>
          rw [join_cons_cons, List.singleton_append] at hends ⊢
          have hfeed : withoutComments ('\n' :: join ['\n'] (next :: lines)) =
              '\n' :: withoutComments (join ['\n'] (next :: lines)) :=
            withoutComments_cons (comment?_of_ne (by decide) _)
          have hrest : ¬['*', '/'] <:+: join ['\n'] (next :: lines) := fun hmark =>
            hends (hmark.trans
              ((List.suffix_cons _ _).trans (List.suffix_append line _)).isInfix)
          rw [withoutComments_line hline (by simp) hends, hfeed,
            ih (List.cons_ne_nil _ _) hlines hrest]
          rfl

/-- Where no block comment ends, only remarks are left out. -/
theorem withoutComments_of_not_isInfix (h : ¬['*', '/'] <:+: cs) :
    withoutComments cs = withoutRemarks cs := by
  have hjoin := join_splitOn '\n' cs
  have hcs := @withoutComments_join (splitOn '\n' cs) (splitOn_ne_nil _ _)
    (fun _ => notMem_of_mem_splitOn) (hjoin.symm ▸ h)
  rwa [hjoin] at hcs


/-! ## Texts that break off -/

/-- Of a line comment that breaks off nothing is left. -/
theorem withoutComments_line_takeWhile (h : '\n' ∉ content) (hbrace : '\x7d' ∈ content)
    (rest : List Char) :
    withoutComments ((('/' :: '/' :: (content ++ rest)).takeWhile (· ≠ '\x7d'))) = [] := by
  obtain ⟨seen, more, rfl, hseen⟩ := List.eq_append_cons_of_mem hbrace
  have hcut : (seen ++ '\x7d' :: (more ++ rest)).takeWhile (· ≠ '\x7d') = seen :=
    takeWhile_append_of_head (decide_ne_of_notMem hseen) (by simp)
  have hopen : comment? ('/' :: '/' :: (seen ++ [])) = some [] :=
    comment?_line (fun hmem => h (List.mem_append_left _ hmem)) (by simp)
  rw [List.append_assoc, List.cons_append, List.takeWhile_cons_of_pos (by decide),
    List.takeWhile_cons_of_pos (by decide), hcut, ← List.append_nil seen,
    withoutComments_of_comment? hopen, withoutComments]

/-- What is left of a block comment that breaks off at a closing brace. It is no comment then, but
the remarks in it are. -/
def brokenComment (content : List Char) : List Char :=
  '/' :: '*' :: withoutRemarks (content.takeWhile (· ≠ '\x7d'))

/-- What is left of a comment that breaks off at a closing brace. -/
def Piece.remains : Piece → List Char
  | block content _ => brokenComment content
  | _ => []

/-- What is left of a text that breaks off at its first closing brace. -/
def codeToBrace : List Piece → List Char
  | [] => []
  | piece :: pieces => if piece.Clear then piece.code ++ codeToBrace pieces else piece.remains

/-- Of a block comment that breaks off the beginning is left. -/
theorem withoutComments_block_takeWhile (h : ¬['*', '/'] <:+: content) (hbrace : '\x7d' ∈ content)
    (rest : List Char) :
    withoutComments (('/' :: '*' :: (content ++ rest)).takeWhile (· ≠ '\x7d')) =
      brokenComment content := by
  obtain ⟨seen, more, rfl, hseen⟩ := List.eq_append_cons_of_mem hbrace
  have hcut (tail : List Char) : (seen ++ '\x7d' :: tail).takeWhile (· ≠ '\x7d') = seen :=
    takeWhile_append_of_head (decide_ne_of_notMem hseen) (by simp)
  have hends : ¬['*', '/'] <:+: seen := fun hmark =>
    h (hmark.trans (List.prefix_append seen _).isInfix)
  have hopen : comment? ('/' :: '*' :: seen) = none :=
    Option.map_eq_none_iff.mpr (cut?_eq_none hends)
  rw [brokenComment, List.append_assoc, List.cons_append, List.takeWhile_cons_of_pos (by decide),
    List.takeWhile_cons_of_pos (by decide), hcut, hcut, withoutComments_cons hopen,
    withoutComments_cons (comment?_of_ne (by decide) seen), withoutComments_of_not_isInfix hends]

/-- A text that breaks off at its first closing brace reads like the row up to there, and what is
left of the comment that holds the brace. -/
theorem withoutComments_takeWhile (pieces : List Piece) :
    withoutComments ((textOf pieces).takeWhile (· ≠ '\x7d')) = codeToBrace pieces := by
  induction pieces with
  | nil => simp [textOf, codeToBrace, withoutComments]
  | cons piece pieces ih =>
      rw [textOf, List.flatMap_cons, ← textOf, codeToBrace]
      split
      next hclear =>
        rw [List.takeWhile_append_of_pos (decide_ne_of_notMem hclear), withoutComments_text_append,
          ih]
      next hclear =>
        rw [Piece.Clear, not_not] at hclear
        cases piece with
        | plain text h => exact absurd rfl (h _ hclear).2
        | block content h =>
            have hbrace : '\x7d' ∈ content := by simpa [Piece.text] using hclear
            rw [Piece.text, List.cons_append, List.cons_append, List.append_assoc]
            exact withoutComments_block_takeWhile h hbrace _
        | line content h =>
            have hbrace : '\x7d' ∈ content := by simpa [Piece.text] using hclear
            rw [Piece.text, List.cons_append, List.cons_append, List.append_assoc]
            exact withoutComments_line_takeWhile h hbrace _

theorem codeToBrace_append_of_clear {part : List Piece} (h : ∀ piece ∈ part, piece.Clear)
    (pieces : List Piece) : codeToBrace (part ++ pieces) = codeOf part ++ codeToBrace pieces := by
  induction part with
  | nil => rfl
  | cons piece part ih =>
      obtain ⟨hpiece, h⟩ := List.forall_mem_cons.mp h
      rw [List.cons_append, codeToBrace, if_pos hpiece, ih h, codeOf, codeOf, List.flatMap_cons,
        List.append_assoc]

theorem codeToBrace_append_of_not_clear {part : List Piece} (h : ¬∀ piece ∈ part, piece.Clear)
    (pieces : List Piece) : codeToBrace (part ++ pieces) = codeToBrace part := by
  induction part with
  | nil => exact absurd (List.forall_mem_nil _) h
  | cons piece part ih =>
      rw [List.forall_mem_cons] at h
      rw [List.cons_append, codeToBrace, codeToBrace]
      split
      next hpiece => rw [ih fun hpart => h ⟨hpiece, hpart⟩]
      next => rfl

/-- The first closing brace of a row stands in a block comment with this content. -/
def BreaksIn (pieces : List Piece) (content : List Char) : Prop :=
  ∃ before h after, pieces = before ++ .block content h :: after ∧
    (∀ piece ∈ before, piece.Clear) ∧ '\x7d' ∈ content

namespace BreaksIn

theorem append_left {front : List Piece} (hfront : ∀ piece ∈ front, piece.Clear)
    (h : BreaksIn pieces content) : BreaksIn (front ++ pieces) content := by
  obtain ⟨before, hends, after, rfl, hbefore, hbrace⟩ := h
  exact ⟨front ++ before, hends, after, by rw [List.append_assoc],
    List.forall_mem_append.mpr ⟨hfront, hbefore⟩, hbrace⟩

/-- The brace stands in the first of two rows, or in the second if there is none in the first. -/
theorem of_append {front : List Piece} (h : BreaksIn (front ++ pieces) content) :
    BreaksIn front content ∨ (∀ piece ∈ front, piece.Clear) ∧ BreaksIn pieces content := by
  obtain ⟨before, hends, after, heq, hbefore, hbrace⟩ := h
  rcases List.append_eq_append_iff.mp heq with ⟨more, rfl, hpieces⟩ | ⟨more, rfl, hblock⟩
  · rw [List.forall_mem_append] at hbefore
    exact .inr ⟨hbefore.1, more, hends, after, hpieces, hbefore.2, hbrace⟩
  · cases more with
    | nil =>
        rw [List.append_nil]
        exact .inr ⟨hbefore, [], hends, after, hblock.symm, List.forall_mem_nil _, hbrace⟩
    | cons piece more =>
        obtain ⟨rfl, -⟩ := List.cons.inj hblock
        exact .inl ⟨before, hends, more, rfl, hbefore, hbrace⟩

theorem mem (h : BreaksIn pieces content) :
    ∃ hends, Piece.block content hends ∈ pieces ∧ '\x7d' ∈ content := by
  obtain ⟨before, hends, after, rfl, -, hbrace⟩ := h
  exact ⟨hends, by simp, hbrace⟩

theorem not_clear (h : BreaksIn pieces content) : ¬∀ piece ∈ pieces, piece.Clear := by
  obtain ⟨hends, hmem, hbrace⟩ := h.mem
  intro hclear
  exact hclear _ hmem (by simp [Piece.text, hbrace])

theorem codeToBrace_eq (h : BreaksIn pieces content) : ∃ before, before <+: pieces ∧
    codeToBrace pieces = codeOf before ++ brokenComment content := by
  obtain ⟨before, hends, after, rfl, hbefore, hbrace⟩ := h
  have hbroken : ¬(Piece.block content hends).Clear := fun hclear =>
    hclear (by simp [Piece.text, hbrace])
  refine ⟨before, List.prefix_append _ _, ?_⟩
  rw [codeToBrace_append_of_clear hbefore, codeToBrace, if_neg hbroken, Piece.remains]

end BreaksIn

/-- A text that breaks off elsewhere is the row before. -/
theorem codeToBrace_of_not_breaksIn (h : ∀ content, ¬BreaksIn pieces content) :
    ∃ before, before <+: pieces ∧ codeToBrace pieces = codeOf before := by
  induction pieces with
  | nil => exact ⟨[], List.prefix_rfl, rfl⟩
  | cons piece pieces ih =>
      rw [codeToBrace]
      split
      next hclear =>
        obtain ⟨before, hprefix, hcode⟩ := ih fun content hbreak =>
          h content (hbreak.append_left (List.forall_mem_singleton.mpr hclear))
        exact ⟨piece :: before, (List.prefix_cons_inj piece).mpr hprefix, by rw [hcode]; rfl⟩
      next hclear =>
        refine ⟨[], List.nil_prefix, ?_⟩
        cases piece with
        | block content hends =>
            have hbrace : '\x7d' ∈ content := by simpa [Piece.Clear, Piece.text] using hclear
            exact absurd ⟨[], hends, pieces, rfl, List.forall_mem_nil _, hbrace⟩ (h content)
        | plain | line => rfl

end Lexicolor.Source
