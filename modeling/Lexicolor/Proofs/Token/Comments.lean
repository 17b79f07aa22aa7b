import Mathlib
import Lexicolor.Proofs.Text.Search
import Lexicolor.Token.Excluded

/-!
# Comments, character by character

The searches for markers find the comments that a reading of the line from left
to right comes upon.
-/

namespace Lexicolor.Token

open Text

variable {inBlock : Bool} {c : Char} {needle cs before rest inside code after : List Char}
variable {offset : Nat}

/-- Marks the comments of a line. The flag tells whether a block comment is open, before the line
and after it. -/
def commentMask : (inBlock : Bool) → List Char → Mask × Bool
  | inBlock, [] => ([], inBlock)
  | true, '*' :: '/' :: cs =>
      let (mask, inBlock) := commentMask false cs
      (true :: true :: mask, inBlock)
  | true, _ :: cs =>
      let (mask, inBlock) := commentMask true cs
      (true :: mask, inBlock)
  | false, '/' :: '*' :: cs =>
      let (mask, inBlock) := commentMask true cs
      (true :: true :: mask, inBlock)
  | false, '/' :: '/' :: cs => (true :: true :: cs.map fun _ => true, false)
  | false, _ :: cs =>
      let (mask, inBlock) := commentMask false cs
      (false :: mask, inBlock)

/-! ## Up to a marker -/

/-- A mask with marks in front of it. -/
def prepend {α : Type} (marks : Mask) (found : Mask × α) : Mask × α := (marks ++ found.1, found.2)

theorem prepend_prepend {α : Type} (marks marks' : Mask) (found : Mask × α) :
    prepend marks (prepend marks' found) = prepend (marks ++ marks') found := by
  simp [prepend]

theorem commentMask_block_cons (h : ∀ after, c :: cs ≠ ['*', '/'] ++ after) :
    commentMask true (c :: cs) = prepend [true] (commentMask true cs) := by
  rw [commentMask]
  · rfl
  · rintro after rfl rfl
    exact h after rfl

theorem commentMask_code_cons (hblock : ∀ after, c :: cs ≠ ['/', '*'] ++ after)
    (hremark : ∀ after, c :: cs ≠ ['/', '/'] ++ after) :
    commentMask false (c :: cs) = prepend [false] (commentMask false cs) := by
  rw [commentMask]
  · rfl
  · rintro after rfl rfl
    exact hblock after rfl
  · rintro after rfl rfl
    exact hremark after rfl

theorem commentMask_closed (h : cut? ['*', '/'] cs = some (inside, after)) :
    commentMask true cs =
      prepend (List.replicate (inside.length + 2) true) (commentMask false after) := by
  induction cs generalizing inside with
  | nil => cases h
  | cons c cs ih =>
      rcases cut?_cons_cases ['*', '/'] c cs with ⟨after, heq, hcut⟩ | ⟨hne, hcut⟩
      · cases hcut.symm.trans h
        rw [heq]
        rfl
      · obtain ⟨⟨inside, after⟩, hrest, heq⟩ := Option.map_eq_some_iff.mp (hcut.symm.trans h)
        cases heq
        rw [commentMask_block_cons hne, ih hrest, prepend_prepend]
        rfl

theorem commentMask_unclosed (h : cut? ['*', '/'] cs = none) :
    commentMask true cs = (List.replicate cs.length true, true) := by
  induction cs with
  | nil => rfl
  | cons c cs ih =>
      rcases cut?_cons_cases ['*', '/'] c cs with ⟨after, -, hcut⟩ | ⟨hne, hcut⟩
      · cases hcut.symm.trans h
      · rw [commentMask_block_cons hne, ih (Option.map_eq_none_iff.mp (hcut.symm.trans h))]
        rfl

/-- No occurrence of the needle begins within the length of `code`. -/
def Clear (needle code cs : List Char) : Prop :=
  ∀ found, cut? needle cs = some found → byteLength code ≤ byteLength found.1

theorem clear_of_cut? (h : cut? needle cs = some (code, after)) : Clear needle code cs := by
  intro found hfound
  cases h.symm.trans hfound
  exact Nat.le_refl _

theorem clear_of_cut?_eq_none (h : cut? needle cs = none) (code : List Char) :
    Clear needle code cs := by
  intro found hfound
  cases h.symm.trans hfound

theorem Clear.of_cons (h : Clear needle (c :: code) (c :: cs)) :
    (∀ after, c :: cs ≠ needle ++ after) ∧ Clear needle code cs := by
  rcases cut?_cons_cases needle c cs with ⟨after, -, hcut⟩ | ⟨hne, hcut⟩
  · have hpos : 0 < byteLength (c :: code) := byteLength_pos (List.cons_ne_nil c code)
    exact absurd (h _ hcut) (Nat.not_le.mpr hpos)
  · refine ⟨hne, fun found hfound => ?_⟩
    have hle := h (c :: found.1, found.2) (by rw [hcut, hfound]; rfl)
    simpa using hle

/-- Where neither marker begins, the reading stays in code. -/
theorem commentMask_code_append (heq : cs = code ++ rest) (hblock : Clear ['/', '*'] code cs)
    (hremark : Clear ['/', '/'] code cs) :
    commentMask false cs =
      prepend (List.replicate code.length false) (commentMask false rest) := by
  induction code generalizing cs with
  | nil =>
      subst heq
      rfl
  | cons c code ih =>
      rw [List.cons_append] at heq
      subst heq
      obtain ⟨hne, hblock⟩ := hblock.of_cons
      obtain ⟨hne', hremark⟩ := hremark.of_cons
      rw [commentMask_code_cons hne hne', ih rfl hblock hremark, prepend_prepend]
      rfl

theorem commentMask_of_block (hblock : cut? ['/', '*'] cs = some (code, after))
    (hremark : Clear ['/', '/'] code cs) :
    commentMask false cs =
      prepend (List.replicate code.length false ++ [true, true]) (commentMask true after) := by
  have heq : cs = code ++ '/' :: '*' :: after := by simpa using eq_append_of_cut? hblock
  rw [commentMask_code_append heq (clear_of_cut? hblock) hremark, ← prepend_prepend]
  rfl

theorem commentMask_of_remark (hremark : cut? ['/', '/'] cs = some (code, after))
    (hblock : Clear ['/', '*'] code cs) :
    commentMask false cs =
      (List.replicate code.length false ++ List.replicate (after.length + 2) true, false) := by
  have heq : cs = code ++ '/' :: '/' :: after := by simpa using eq_append_of_cut? hremark
  rw [commentMask_code_append heq hblock (clear_of_cut? hremark)]
  simp [commentMask, prepend, List.replicate_succ]

theorem commentMask_of_code (hblock : cut? ['/', '*'] cs = none)
    (hremark : cut? ['/', '/'] cs = none) :
    commentMask false cs = (List.replicate cs.length false, false) := by
  rw [commentMask_code_append (List.append_nil cs).symm (clear_of_cut?_eq_none hblock cs)
    (clear_of_cut?_eq_none hremark cs)]
  simp [commentMask, prepend]

/-! ## One search -/

/-- What a search finds in the rest of a line is the first that the rule marks there. -/
inductive CommentSearch.Agrees (before rest : List Char) (inBlock : Bool) : CommentSearch → Prop
  | closed (code comment after : List Char) (heq : rest = code ++ (comment ++ after))
      (hne : comment ≠ [])
      (hmask : commentMask inBlock rest =
        prepend (List.replicate code.length false ++ List.replicate comment.length true)
          (commentMask false after)) :
      Agrees before rest inBlock (.closed
        ⟨byteLength before + byteLength code,
          byteLength before + byteLength code + byteLength comment⟩)
  | cut (code comment : List Char) {goesOn : Bool} (heq : rest = code ++ comment)
      (hne : comment ≠ [])
      (hmask : commentMask inBlock rest =
        (List.replicate code.length false ++ List.replicate comment.length true, goesOn)) :
      Agrees before rest inBlock
        (.cut ⟨byteLength before + byteLength code, byteLength (before ++ rest)⟩ goesOn)
  | nothing (hmask : commentMask inBlock rest = (List.replicate rest.length false, false)) :
      Agrees before rest inBlock .nothing

section Opened

variable {opener : List Char} (before : List Char) (heq : rest = code ++ (opener ++ inside))
variable (hmask : commentMask inBlock rest =
  prepend (List.replicate code.length false ++ List.replicate opener.length true)
    (commentMask true inside))

include heq hmask

theorem CommentSearch.agrees_closed {comment : List Char}
    (h : cut? ['*', '/'] inside = some (comment, after)) :
    (CommentSearch.closed ⟨byteLength before + byteLength code,
      byteLength before + byteLength code + byteLength opener + byteLength comment + 2⟩).Agrees
        before rest inBlock := by
  have hstop : byteLength before + byteLength code + byteLength opener + byteLength comment + 2 =
      byteLength before + byteLength code + byteLength (opener ++ comment ++ ['*', '/']) := by
    rw [byteLength_append, byteLength_append, ← Nat.add_assoc, ← Nat.add_assoc]
    rfl
  rw [hstop]
  refine .closed code (opener ++ comment ++ ['*', '/']) after ?_ (by simp) ?_
  · rw [heq, eq_append_of_cut? h]
    simp only [List.append_assoc]
  · rw [hmask, commentMask_closed h, prepend_prepend]
    simp [prepend]

theorem CommentSearch.agrees_unclosed (h : cut? ['*', '/'] inside = none)
    (hne : opener ++ inside ≠ []) :
    (CommentSearch.cut ⟨byteLength before + byteLength code, byteLength (before ++ rest)⟩
      true).Agrees before rest inBlock := by
  refine .cut code (opener ++ inside) heq hne ?_
  rw [hmask, commentMask_unclosed h]
  simp [prepend]

end Opened

theorem CommentSearch.agrees_blockComment? {found : CommentSearch} (before : List Char)
    (hblock : cut? ['/', '*'] rest = some (code, inside))
    (hremark : Clear ['/', '/'] code rest)
    (h : blockComment? (before ++ rest) (byteLength before + byteLength code) = some found) :
    found.Agrees before rest false := by
  have heq : rest = code ++ (['/', '*'] ++ inside) := by simpa using eq_append_of_cut? hblock
  have hmask := commentMask_of_block hblock hremark
  have hfrom : fromByte? (byteLength before + byteLength code + 2) (before ++ rest) =
      some inside := by
    have hsplit := fromByte?_append (before ++ code ++ ['/', '*']) inside
    rw [byteLength_append, byteLength_append] at hsplit
    rw [heq, ← List.append_assoc, ← List.append_assoc]
    exact hsplit
  rw [blockComment?, hfrom, Option.bind_eq_bind, Option.bind_some, offsetOf?] at h
  cases hclose : cut? ['*', '/'] inside with
  | none =>
      rw [hclose] at h
      cases h
      exact agrees_unclosed before heq hmask hclose (List.cons_ne_nil _ _)
  | some found =>
      rw [hclose] at h
      cases h
      exact agrees_closed before heq hmask hclose

theorem CommentSearch.agrees_remark (before : List Char)
    (hremark : cut? ['/', '/'] rest = some (code, after)) (hblock : Clear ['/', '*'] code rest) :
    (CommentSearch.cut ⟨byteLength before + byteLength code, byteLength (before ++ rest)⟩
      false).Agrees before rest false := by
  refine .cut code (['/', '/'] ++ after) (by simpa using eq_append_of_cut? hremark) (by simp) ?_
  rw [commentMask_of_remark hremark hblock]
  simp

/-- A search in an open comment looks for its end only. -/
theorem CommentSearch.agrees_of_block {found : CommentSearch} (before : List Char)
    (hne : rest ≠ [])
    (h : searchComment? (before ++ rest) (byteLength before) true = some found) :
    found.Agrees before rest true := by
  rw [searchComment?, fromByte?_append, Option.bind_eq_bind, Option.bind_some, offsetOf?] at h
  -- the comment is open already, so nothing stands before it
  have heq : rest = [] ++ ([] ++ rest) := rfl
  cases hclose : cut? ['*', '/'] rest with
  | none =>
      rw [hclose] at h
      cases h
      exact agrees_unclosed before heq rfl hclose hne
  | some found =>
      rw [hclose] at h
      cases h
      exact agrees_closed before heq rfl hclose

/-- Which marker comes first in code decides how the search goes on. -/
theorem searchComment?_code_cases (before rest : List Char) :
    (∃ code inside, cut? ['/', '*'] rest = some (code, inside) ∧ Clear ['/', '/'] code rest ∧
      searchComment? (before ++ rest) (byteLength before) false =
        blockComment? (before ++ rest) (byteLength before + byteLength code)) ∨
    (∃ code after, cut? ['/', '/'] rest = some (code, after) ∧ Clear ['/', '*'] code rest ∧
      searchComment? (before ++ rest) (byteLength before) false =
        some (.cut ⟨byteLength before + byteLength code, byteLength (before ++ rest)⟩ false)) ∨
    (cut? ['/', '*'] rest = none ∧ cut? ['/', '/'] rest = none ∧
      searchComment? (before ++ rest) (byteLength before) false = some .nothing) := by
  rw [searchComment?, fromByte?_append, Option.bind_eq_bind, Option.bind_some]
  simp only [Bool.false_eq_true, if_false, offsetOf?]
  cases hblock : cut? ['/', '*'] rest with
  | none =>
      cases hremark : cut? ['/', '/'] rest with
      | none => exact .inr (.inr ⟨rfl, rfl, rfl⟩)
      | some remark =>
          exact .inr (.inl ⟨remark.1, remark.2, rfl, clear_of_cut?_eq_none hblock _, rfl⟩)
  | some block =>
      cases hremark : cut? ['/', '/'] rest with
      | none => exact .inl ⟨block.1, block.2, rfl, clear_of_cut?_eq_none hremark _, rfl⟩
      | some remark =>
          by_cases hlt : byteLength block.1 < byteLength remark.1
          · refine .inl ⟨block.1, block.2, rfl, fun found hfound => ?_, if_pos hlt⟩
            cases hremark.symm.trans hfound
            exact hlt.le
          · refine .inr (.inl ⟨remark.1, remark.2, rfl, fun found hfound => ?_, if_neg hlt⟩)
            cases hblock.symm.trans hfound
            exact Nat.le_of_not_lt hlt

/-- Every search finds what the rule marks first. -/
theorem CommentSearch.agrees_searchComment? {found : CommentSearch} (before : List Char)
    (hne : rest ≠ [])
    (h : searchComment? (before ++ rest) (byteLength before) inBlock = some found) :
    found.Agrees before rest inBlock := by
  cases inBlock with
  | true => exact agrees_of_block before hne h
  | false =>
      rcases searchComment?_code_cases before rest with ⟨code, inside, hblock, hremark, heq⟩ |
        ⟨code, after, hremark, hblock, heq⟩ | ⟨hblock, hremark, heq⟩
      · exact agrees_blockComment? before hblock hremark (heq.symm.trans h)
      · cases heq.symm.trans h
        exact agrees_remark before hremark hblock
      · cases heq.symm.trans h
        exact .nothing (commentMask_of_code hblock hremark)

/-! ## All searches of a line -/

variable {regions : List Region} {region : Region} {line : List Char}

theorem regionMask_append (regions : List Region) (offset : Nat) (cs cs' : List Char) :
    regionMask regions offset (cs ++ cs') =
      regionMask regions offset cs ++ regionMask regions (offset + byteLength cs) cs' := by
  induction cs generalizing offset with
  | nil => rfl
  | cons c cs ih =>
      rw [List.cons_append, regionMask, regionMask, ih, byteLength_cons, Nat.add_assoc]
      rfl

theorem regionMask_of_not_holds (h : ∀ i, offset ≤ i → i < offset + byteLength cs →
    ∀ region ∈ regions, region.holds i = false) :
    regionMask regions offset cs = List.replicate cs.length false := by
  induction cs generalizing offset with
  | nil => rfl
  | cons c cs ih =>
      have hpos := c.utf8Size_pos
      rw [byteLength_cons] at h
      have hfirst : regions.any (·.holds offset) = false := by
        simpa using h offset (Nat.le_refl _) (by omega)
      rw [regionMask, hfirst, ih fun i hle hlt => h i (by omega) (by omega)]
      rfl

theorem regionMask_of_holds (hmem : region ∈ regions)
    (h : ∀ i, offset ≤ i → i < offset + byteLength cs → region.holds i = true) :
    regionMask regions offset cs = List.replicate cs.length true := by
  induction cs generalizing offset with
  | nil => rfl
  | cons c cs ih =>
      have hpos := c.utf8Size_pos
      rw [byteLength_cons] at h
      have hfirst : regions.any (·.holds offset) = true :=
        List.any_eq_true.mpr ⟨region, hmem, h offset (Nat.le_refl _) (by omega)⟩
      rw [regionMask, hfirst, ih fun i hle hlt => h i (by omega) (by omega)]
      rfl

theorem regionMask_cons_of_le (h : region.stop ≤ offset) (cs : List Char) :
    regionMask (region :: regions) offset cs = regionMask regions offset cs := by
  induction cs generalizing offset with
  | nil => rfl
  | cons c cs ih =>
      have hholds : region.holds offset = false := by
        simp only [Region.holds, Bool.and_eq_false_iff, decide_eq_false_iff_not]
        exact .inr (Nat.not_lt.mpr h)
      rw [regionMask, regionMask, ih (h.trans (Nat.le_add_right ..)), List.any_cons, hholds,
        Bool.false_or]

/-- The region is not empty, and the line can be cut at both its ends. -/
structure Region.Within (line : List Char) (region : Region) : Prop where
  lt : region.start < region.stop
  cutsAt_start : CutsAt line region.start
  cutsAt_stop : CutsAt line region.stop

/-- The regions are the comments in the rest of the line, in order and apart. -/
structure Describes (regions : List Region) (before rest : List Char) (inBlock : Bool) : Prop where
  mask : regionMask regions (byteLength before) rest = (commentMask inBlock rest).1
  start_le : ∀ region ∈ regions, byteLength before ≤ region.start
  within : ∀ region ∈ regions, region.Within (before ++ rest)
  apart : regions.Pairwise fun region region' => region.stop ≤ region'.start

theorem Describes.cons {comment : List Char} (heq : rest = code ++ (comment ++ after))
    (hne : comment ≠ [])
    (hmask : (commentMask inBlock rest).1 = List.replicate code.length false ++
      (List.replicate comment.length true ++ (commentMask false after).1))
    (h : Describes regions (before ++ code ++ comment) after false) :
    Describes (⟨byteLength before + byteLength code,
      byteLength before + byteLength code + byteLength comment⟩ :: regions) before rest
      inBlock := by
  have hpos := byteLength_pos hne
  have hle := h.start_le
  simp only [byteLength_append] at hle
  have hline : before ++ rest = before ++ code ++ comment ++ after := by simp [heq]
  refine ⟨?_, ?_, ?_, List.pairwise_cons.mpr ⟨hle, h.apart⟩⟩
  · rw [hmask]
    nth_rewrite 1 [heq]
    -- up to the comment, in it and behind it
    rw [regionMask_append, regionMask_append]
    congr 1
    · refine regionMask_of_not_holds fun i hi hlt region hmem => ?_
      rw [Region.holds, Bool.and_eq_false_iff, decide_eq_false_iff_not]
      rcases List.mem_cons.mp hmem with rfl | hmem
      · exact .inl (Nat.not_le.mpr hlt)
      · have hstart := hle region hmem
        exact .inl (by omega)
    congr 1
    · refine regionMask_of_holds List.mem_cons_self fun i hi hlt => ?_
      rw [Region.holds, Bool.and_eq_true, decide_eq_true_eq, decide_eq_true_eq]
      exact ⟨hi, hlt⟩
    · rw [regionMask_cons_of_le (Nat.le_refl _), ← h.mask, byteLength_append, byteLength_append]
  · refine List.forall_mem_cons.mpr ⟨Nat.le_add_right .., fun region hmem => ?_⟩
    have hstart := hle region hmem
    omega
  · refine List.forall_mem_cons.mpr ⟨⟨Nat.lt_add_of_pos_right hpos, ?_, ?_⟩, hline ▸ h.within⟩
    · exact ⟨before ++ code, comment ++ after, by simp [hline], (byteLength_append ..).symm⟩
    · exact ⟨before ++ code ++ comment, after, hline, by simp only [byteLength_append]⟩

theorem describes_nil (h : (commentMask inBlock rest).1 = List.replicate rest.length false) :
    Describes [] before rest inBlock where
  mask := by
    rw [h]
    exact regionMask_of_not_holds fun _ _ _ _ hmem => absurd hmem List.not_mem_nil
  start_le _ hmem := absurd hmem List.not_mem_nil
  within _ hmem := absurd hmem List.not_mem_nil
  apart := List.Pairwise.nil

/-- From every place between characters on, the searches come to an end and find the comments of
the rest of the line. -/
theorem exists_describes (inBlock : Bool) (before rest : List Char) :
    ∃ regions, commentsFrom? (before ++ rest) (byteLength before) inBlock =
        some (regions, (commentMask inBlock rest).2) ∧
      Describes regions before rest inBlock := by
  -- on how much of the line is left, as a search goes on behind the comment that it closed
  induction hn : rest.length using Nat.strongRecOn generalizing before rest inBlock with
  | _ n ih =>
      rw [commentsFrom?]
      by_cases hne : rest = []
      · subst hne
        refine ⟨[], ?_, describes_nil (by cases inBlock <;> rfl)⟩
        rw [List.append_nil, if_neg (Nat.lt_irrefl _)]
        cases inBlock <;> rfl
      rw [if_pos (byteLength_lt hne)]
      obtain ⟨found, hfound, hgoes⟩ :=
        exists_searchComment? inBlock (⟨before, rest, rfl, rfl⟩ : CutsAt (before ++ rest) _)
      rw [hfound, Option.bind_eq_bind, Option.bind_some]
      cases CommentSearch.agrees_searchComment? before hne hfound with
      | closed code comment after heq hne hmask =>
          have hlt : after.length < n := by
            have hpos := List.length_pos_iff.mpr hne
            rw [← hn, heq, List.length_append, List.length_append]
            omega
          obtain ⟨regions, hregions, hdescribes⟩ :=
            ih _ hlt false (before ++ code ++ comment) after rfl
          refine ⟨_, ?_, hdescribes.cons heq hne ?_⟩
          · have hline : before ++ rest = before ++ code ++ comment ++ after := by simp [heq]
            rw [byteLength_append, byteLength_append, ← hline] at hregions
            have hadvance : byteLength before <
                byteLength before + byteLength code + byteLength comment :=
              Nat.lt_of_lt_of_le (Nat.lt_add_of_pos_right Nat.two_pos) hgoes.1
            rw [hmask]
            simp [hadvance, hregions, prepend]
          · rw [hmask, prepend, List.append_assoc]
      | cut code comment heq hne hmask =>
          have hdescribes : Describes [] (before ++ code ++ comment) [] false := describes_nil rfl
          have hline : byteLength (before ++ rest) =
              byteLength before + byteLength code + byteLength comment := by
            rw [heq, byteLength_append, byteLength_append, Nat.add_assoc]
          rw [hline, hmask]
          refine ⟨_, rfl, hdescribes.cons (by simpa using heq) hne ?_⟩
          rw [hmask]
          simp [commentMask]
      | nothing hmask =>
          refine ⟨[], ?_, describes_nil (congrArg Prod.fst hmask)⟩
          rw [hmask]
          rfl

theorem commentsFrom?_eq (inBlock : Bool) (line : List Char) :
    commentsFrom? line 0 inBlock = some (comments inBlock line) := by
  rw [comments, Option.some_get]

/-- The searches find the comments that the rule marks. -/
theorem describes_comments (inBlock : Bool) (line : List Char) :
    Describes (comments inBlock line).1 [] line inBlock ∧
      (comments inBlock line).2 = (commentMask inBlock line).2 := by
  obtain ⟨regions, hregions, hdescribes⟩ := exists_describes inBlock [] line
  have heq := Option.some.inj ((commentsFrom?_eq inBlock line).symm.trans hregions)
  rw [heq]
  exact ⟨hdescribes, rfl⟩

end Lexicolor.Token
