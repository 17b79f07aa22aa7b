import Mathlib
import Lexicolor.Proofs.Text.Search
import Lexicolor.Text.Lines

/-!
# The places of lines

A text that goes on behind a line feed has the lines of its two parts, and every
line stands behind as many line feeds as there are lines before it. The parts
between line feeds are the lines with their carriage returns.
-/

namespace Lexicolor.Text

variable {text cs ds before line after first rest : List Char} {i : Nat} {c : Char}
variable {parts : List (List Char)}

theorem lines_nil : lines [] = [] := by
  rw [lines]
  rfl

theorem lines_feed (h : '\n' ∉ first) (rest : List Char) :
    lines (first ++ '\n' :: rest) = chopReturn first :: lines rest := by
  have hfirst := decide_ne_of_notMem h
  have htake : (first ++ '\n' :: rest).takeWhile (· ≠ '\n') = first := by
    rw [List.takeWhile_append_of_pos hfirst]
    simp
  have hdrop : (first ++ '\n' :: rest).dropWhile (· ≠ '\n') = '\n' :: rest := by
    rw [List.dropWhile_append_of_pos hfirst]
    simp
  rw [lines, if_neg (by simp)]
  split
  next heq => cases heq.symm.trans hdrop
  next heq =>
    cases heq.symm.trans hdrop
    rw [htake]

theorem lines_of_notMem (hne : cs ≠ []) (h : '\n' ∉ cs) : lines cs = [cs] := by
  have hcs := decide_ne_of_notMem h
  rw [lines, if_neg (by simpa using hne)]
  split
  next => rw [List.takeWhile_eq_self_iff.mpr hcs]
  next heq => 
    rw [List.dropWhile_eq_nil_iff.mpr hcs] at heq
    cases heq

theorem chopReturn_eq_self (h : cs.getLast? ≠ some '\r') : chopReturn cs = cs := if_neg h

/-- A line loses at most one carriage return at its end. -/
theorem chopReturn_cases (line : List Char) :
    chopReturn line = line ∨ line = chopReturn line ++ ['\r'] := by
  rw [chopReturn]
  split
  next h => exact .inr (List.dropLast_append_getLast? _ h).symm
  next => exact .inl rfl

theorem notMem_chopReturn (h : c ∉ line) : c ∉ chopReturn line := by
  rcases chopReturn_cases line with heq | heq
  · rwa [heq]
  · rw [heq] at h
    exact fun hmem => h (List.mem_append_left _ hmem)

theorem chopReturn_append (h : cs ≠ []) (before : List Char) :
    chopReturn (before ++ cs) = before ++ chopReturn cs := by
  rw [chopReturn, chopReturn, List.getLast?_append_of_ne_nil before h,
    List.dropLast_append_of_ne_nil h]
  split <;> rfl

/-- All lines of the text are ended by line feeds. -/
inductive Ended : List Char → Prop
  | nil : Ended []
  | line {first rest : List Char} (h : '\n' ∉ first) (hrest : Ended rest) :
      Ended (first ++ '\n' :: rest)

theorem lines_append (h : Ended before) (after : List Char) :
    lines (before ++ after) = lines before ++ lines after := by
  induction h with
  | nil => rw [lines_nil, List.nil_append, List.nil_append]
  | line hfirst hrest ih =>
      rw [List.append_assoc, List.cons_append, lines_feed hfirst, lines_feed hfirst, ih,
        List.cons_append]

theorem length_lines (h : Ended before) : (lines before).length = before.count '\n' := by
  induction h with
  | nil => rw [lines_nil]; rfl
  | line hfirst hrest ih =>
      rw [lines_feed hfirst, List.length_cons, ih, List.count_append, List.count_cons_self,
        List.count_eq_zero.mpr hfirst, Nat.zero_add]

/-- The texts that line feeds end, as they are. -/
def rawLines (cs : List Char) : List (List Char) := (splitOn '\n' cs).dropLast

theorem lines_eq_map_rawLines (h : Ended cs) : lines cs = (rawLines cs).map chopReturn := by
  induction h with
  | nil => exact lines_nil
  | @line first rest hfirst hrest ih =>
      rw [lines_feed hfirst, ih, rawLines, rawLines, splitOn_append, splitOn_of_notMem hfirst,
        List.dropLast_append_of_ne_nil (splitOn_ne_nil '\n' rest), List.map_append, List.map_singleton,
        List.singleton_append]

theorem Ended.cons (c : Char) (h : Ended cs) (hne : cs ≠ []) : Ended (c :: cs) := by
  by_cases hc : c = '\n'
  · exact hc ▸ .line List.not_mem_nil h
  · cases h with
    | nil => exact absurd rfl hne
    | line hfirst hrest =>
        rw [← List.cons_append]
        exact .line (by simp [hfirst, Ne.symm hc]) hrest

theorem ended_append_feed (cs : List Char) : Ended (cs ++ ['\n']) := by
  induction cs with
  | nil => exact .line List.not_mem_nil .nil
  | cons c cs ih => exact ih.cons c (by simp)

/-- The parts between line feeds are lines where a line feed ends the text. -/
theorem lines_append_feed (cs : List Char) :
    lines (cs ++ ['\n']) = (splitOn '\n' cs).map chopReturn := by
  rw [lines_eq_map_rawLines (ended_append_feed cs), rawLines, splitOn_append]
  exact congrArg _ List.dropLast_concat

theorem Ended.append (h : Ended cs) (h' : Ended ds) : Ended (cs ++ ds) := by
  induction h with
  | nil => exact h'
  | line hfirst hrest ih =>
      rw [List.append_assoc, List.cons_append]
      exact .line hfirst ih

theorem ended_unlines (parts : List (List Char)) : Ended (unlines parts) := by
  induction parts with
  | nil => exact .nil
  | cons part parts ih => exact (ended_append_feed part).append ih

theorem splitOn_unlines_append (parts : List (List Char)) (cs : List Char) :
    splitOn '\n' (unlines parts ++ cs) = parts.flatMap (splitOn '\n') ++ splitOn '\n' cs := by
  induction parts with
  | nil => rfl
  | cons part parts ih =>
      have hcons : unlines (part :: parts) ++ cs = part ++ '\n' :: (unlines parts ++ cs) := by
        simp [unlines]
      rw [hcons, splitOn_append, ih, List.flatMap_cons, List.append_assoc]

theorem rawLines_unlines (parts : List (List Char)) :
    rawLines (unlines parts) = parts.flatMap (splitOn '\n') := by
  have hsplit := splitOn_unlines_append parts []
  rw [List.append_nil] at hsplit
  rw [rawLines, hsplit]
  exact List.dropLast_concat

/-- Lines that are written without line feeds are read back up to a carriage return. -/
theorem lines_unlines (h : ∀ part ∈ parts, '\n' ∉ part) :
    lines (unlines parts) = parts.map chopReturn := by
  rw [lines_eq_map_rawLines (ended_unlines parts), rawLines_unlines, flatMap_splitOn h]

/-- What follows the last line feed. -/
def lastLine : List Char → List Char
  | [] => []
  | c :: cs => if '\n' ∈ c :: cs then lastLine cs else c :: cs

theorem exists_eq_append_lastLine (cs : List Char) :
    ∃ before, cs = before ++ lastLine cs ∧ Ended before ∧ '\n' ∉ lastLine cs := by
  induction cs with
  | nil => exact ⟨[], rfl, .nil, List.not_mem_nil⟩
  | cons c cs ih =>
      by_cases hfeed : '\n' ∈ c :: cs
      · obtain ⟨before, heq, hended, hlast⟩ := ih
        rw [lastLine, if_pos hfeed]
        refine ⟨c :: before, congrArg (c :: ·) heq, ?_, hlast⟩
        by_cases hc : c = '\n'
        · exact hc ▸ .line List.not_mem_nil hended
        · refine hended.cons c fun hnil => ?_
          rw [hnil, List.nil_append] at heq
          rw [← heq] at hlast
          exact absurd hfeed (by simp [hlast, Ne.symm hc])
      · rw [lastLine, if_neg hfeed]
        exact ⟨[], rfl, .nil, hfeed⟩

/-- The line with the number stands between the two parts of the text. -/
structure LineAt (text : List Char) (i : Nat) (before line after : List Char) : Prop where
  eq : text = before ++ (line ++ after)
  ended : Ended before
  /-- There are as many line feeds before the line. -/
  count : before.count '\n' = i
  notMem : '\n' ∉ line
  stops : after = [] ∨ ∃ rest, after = '\n' :: rest ∨ after = '\r' :: '\n' :: rest

theorem LineAt.lines_before (h : LineAt text i before line after) :
    lines before = (lines text).take i := by
  rw [h.eq, lines_append h.ended, ← h.count, ← length_lines h.ended, List.take_left]

theorem lineAt_zero (h : '\n' ∉ first) (rest : List Char) :
    ∃ after, LineAt (first ++ '\n' :: rest) 0 [] (chopReturn first) after := by
  rcases chopReturn_cases first with heq | heq
  · rw [heq]
    exact ⟨'\n' :: rest, rfl, .nil, rfl, h, .inr ⟨rest, .inl rfl⟩⟩
  · refine ⟨'\r' :: '\n' :: rest, ?_, .nil, rfl, ?_, .inr ⟨rest, .inr rfl⟩⟩
    · nth_rewrite 1 [heq]
      simp
    · rw [heq] at h
      exact fun hmem => h (List.mem_append_left _ hmem)

theorem exists_lineAt (h : (lines text)[i]? = some line) :
    ∃ before after, LineAt text i before line after := by
  induction i generalizing text with
  | zero =>
      by_cases hfeed : '\n' ∈ text
      · obtain ⟨first, rest, rfl, hfirst⟩ := List.eq_append_cons_of_mem hfeed
        rw [lines_feed hfirst] at h
        cases h
        exact ⟨[], lineAt_zero hfirst rest⟩
      · have hne : text ≠ [] := by
          rintro rfl
          rw [lines_nil] at h
          cases h
        rw [lines_of_notMem hne hfeed] at h
        cases h
        exact ⟨[], [], (List.append_nil _).symm, .nil, rfl, hfeed, .inl rfl⟩
  | succ i ih =>
      by_cases hfeed : '\n' ∈ text
      · obtain ⟨first, rest, rfl, hfirst⟩ := List.eq_append_cons_of_mem hfeed
        -- the line is one of those behind the first line feed
        rw [lines_feed hfirst, List.getElem?_cons_succ] at h
        obtain ⟨before, after, hrest⟩ := ih h
        refine ⟨first ++ '\n' :: before, after, ?_, .line hfirst hrest.ended, ?_, hrest.notMem,
          hrest.stops⟩
        · rw [hrest.eq]
          simp
        · rw [List.count_append, List.count_cons_self, hrest.count,
            List.count_eq_zero.mpr hfirst, Nat.zero_add]
      · have hlength : (lines text).length ≤ 1 := by
          by_cases hne : text = []
          · rw [hne, lines_nil]
            exact Nat.zero_le _
          · rw [lines_of_notMem hne hfeed]
            rfl
        rw [List.getElem?_eq_none (by omega)] at h
        cases h

theorem notMem_of_mem_lines (h : line ∈ lines text) : '\n' ∉ line := by
  obtain ⟨i, hi⟩ := List.getElem?_of_mem h
  obtain ⟨before, after, hline⟩ := exists_lineAt hi
  exact hline.notMem

end Lexicolor.Text
