import Mathlib
import Lexicolor.Text.Blank
import Lexicolor.Text.Search

/-!
# First places, parts and blanks

A search cuts a text at the first place where the needle stands. The parts of a
text between separators are read back from the joined text, also when blanks
stand behind the separators.
-/

namespace Lexicolor.Text

variable {P : List Char → Prop} {c sep : Char} {parts : List (List Char)}
variable {cs cs' before after needle rest : List Char}

/-! ## First places -/

/-- The text is cut at the first place where `P` holds of what follows. -/
structure FirstAt (P : List Char → Prop) (cs before after : List Char) : Prop where
  eq : cs = before ++ after
  holds : P after
  first : ∀ before' after', cs = before' ++ after' → P after' → before.length ≤ before'.length

theorem firstAt_of_holds (h : P cs) : FirstAt P cs before after ↔ before = [] ∧ after = cs := by
  constructor
  · intro hfirst
    have hnil : before = [] := by simpa using hfirst.first [] cs rfl h
    exact ⟨hnil, by rw [hfirst.eq, hnil, List.nil_append]⟩
  · intro heq
    obtain ⟨rfl, rfl⟩ := heq
    exact ⟨rfl, h, fun _ _ _ _ => Nat.zero_le _⟩

theorem firstAt_cons_of_not (h : ¬P (c :: cs)) : FirstAt P (c :: cs) before after ↔
    ∃ before', before = c :: before' ∧ FirstAt P cs before' after := by
  constructor
  · intro hfirst
    cases before with
    | nil => exact absurd (hfirst.eq ▸ hfirst.holds) h
    | cons d before =>
        obtain ⟨rfl, hcs⟩ := List.cons.inj hfirst.eq
        refine ⟨before, rfl, hcs, hfirst.holds, fun before' after' heq hafter => ?_⟩
        have hle := hfirst.first (c :: before') after' (congrArg (c :: ·) heq) hafter
        exact Nat.le_of_succ_le_succ hle
  · intro hfound
    obtain ⟨before, rfl, hfirst⟩ := hfound
    refine ⟨congrArg (c :: ·) hfirst.eq, hfirst.holds, fun before' after' heq hafter => ?_⟩
    cases before' with
    | nil => exact absurd (heq ▸ hafter) h
    | cons d before' =>
        have hle := hfirst.first before' after' (List.cons.inj heq).2 hafter
        exact Nat.succ_le_succ hle

/-! ## Searches -/

theorem after?_append (before rest : List Char) : after? before (before ++ rest) = some rest :=
  after?_eq_some_iff.mpr rfl

/-- A search for a text finds it at once, or goes on behind the first character. -/
theorem cut?_cons_cases (needle : List Char) (c : Char) (cs : List Char) :
    (∃ after, c :: cs = needle ++ after ∧ cut? needle (c :: cs) = some ([], after)) ∨
      (∀ after, c :: cs ≠ needle ++ after) ∧
        cut? needle (c :: cs) = (cut? needle cs).map fun found => (c :: found.1, found.2) := by
  rw [cut?]
  split
  next after hafter => exact .inl ⟨after, after?_eq_some_iff.mp hafter, rfl⟩
  next hnone =>
    refine .inr ⟨fun after heq => ?_, rfl⟩
    rw [after?_eq_some_iff.mpr heq] at hnone
    cases hnone

/-- A search cuts the text at the first occurrence. -/
theorem cut?_eq_some_iff : cut? needle cs = some (before, rest) ↔
    FirstAt (needle <+: ·) cs before (needle ++ rest) := by
  induction cs generalizing before with
  | nil =>
      by_cases hneedle : needle = []
      · subst hneedle
        rw [firstAt_of_holds (List.nil_prefix)]
        simp [cut?, eq_comm]
      · have hnot : ¬FirstAt (needle <+: ·) [] before (needle ++ rest) := by
          intro hfirst
          have heq := List.append_eq_nil_iff.mp hfirst.eq.symm
          exact hneedle (List.append_eq_nil_iff.mp heq.2).1
        simp [cut?, hneedle, hnot]
  | cons c cs ih =>
      -- an occurrence here is the first one
      rcases cut?_cons_cases needle c cs with ⟨after, heq, hcut⟩ | ⟨hne, hcut⟩
      · have hprefix : needle <+: c :: cs := ⟨after, heq.symm⟩
        rw [firstAt_of_holds hprefix, hcut, heq, Option.some.injEq, Prod.mk.injEq,
          List.append_cancel_left_eq, eq_comm, @eq_comm _ after]
      · have hnot : ¬needle <+: c :: cs := fun hprefix => hprefix.elim fun after heq =>
          hne after heq.symm
        rw [firstAt_cons_of_not hnot, hcut, Option.map_eq_some_iff]
        constructor
        · intro hfound
          obtain ⟨⟨before', rest'⟩, hcut', heq⟩ := hfound
          cases heq
          exact ⟨before', rfl, ih.mp hcut'⟩
        · intro hfirst
          obtain ⟨before', rfl, hfirst⟩ := hfirst
          exact ⟨(before', rest), ih.mpr hfirst, rfl⟩

/-- A text is cut at the first occurrence of the needle. -/
theorem cut?_append (hneedle : needle ≠ []) (h : ¬needle <:+: before ++ needle.dropLast) :
    cut? needle (before ++ (needle ++ rest)) = some (before, rest) := by
  induction before with
  | nil =>
      obtain ⟨c, needle, rfl⟩ := List.exists_cons_of_ne_nil hneedle
      rw [List.nil_append, List.cons_append, cut?, ← List.cons_append, after?_append]
  | cons c before ih =>
      rw [List.cons_append, List.infix_cons_iff, not_or] at h
      rcases cut?_cons_cases needle c (before ++ (needle ++ rest)) with ⟨more, heq, -⟩ | ⟨-, hcut⟩
      · -- an occurrence at the start ends before the last character of the needle
        have hbefore : c :: (before ++ needle.dropLast) <+: c :: (before ++ (needle ++ rest)) := by
          refine ⟨needle.getLast hneedle :: rest, ?_⟩
          conv_rhs => rw [← List.dropLast_concat_getLast hneedle]
          simp
        refine absurd (List.prefix_of_prefix_length_le ⟨more, heq.symm⟩ hbefore ?_) h.1
        have := List.length_pos_of_ne_nil hneedle
        simp only [List.length_cons, List.length_append, List.length_dropLast]
        omega
      · rw [List.cons_append, hcut, ih h.2, Option.map_some]

theorem singleton_isInfix_iff : [c] <:+: cs ↔ c ∈ cs := by
  rw [List.mem_iff_append]
  simp only [List.IsInfix, List.append_assoc, List.singleton_append, eq_comm]

theorem eq_append_of_cut?_singleton (h : cut? [c] cs = some (before, after)) :
    cs = before ++ c :: after ∧ c ∉ before := by
  refine ⟨by simpa using eq_append_of_cut? h, fun hmem => ?_⟩
  exact not_isInfix_of_cut? h (by simp) (singleton_isInfix_iff.mpr hmem)

theorem cut?_singleton_append (h : c ∉ before) (rest : List Char) :
    cut? [c] (before ++ c :: rest) = some (before, rest) := by
  refine cut?_append (List.cons_ne_nil c []) ?_
  rwa [List.dropLast_singleton, List.append_nil, singleton_isInfix_iff]

theorem notMem_of_cut?_eq_none (h : cut? [c] cs = none) : c ∉ cs := by
  intro hmem
  have hcontains : contains [c] cs := contains_iff.mpr (singleton_isInfix_iff.mpr hmem)
  rw [contains, h] at hcontains
  cases hcontains

theorem cut?_eq_none (h : ¬needle <:+: cs) : cut? needle cs = none :=
  Option.not_isSome_iff_eq_none.mp (mt contains_iff.mp h)

theorem decide_ne_of_notMem (h : c ∉ cs) : ∀ d ∈ cs, decide (d ≠ c) = true := fun _ hd =>
  decide_eq_true fun heq => h (heq ▸ hd)

/-! ## Parts -/

theorem splitOn_ne_nil (sep : Char) (cs : List Char) : splitOn sep cs ≠ [] := by
  cases cs with
  | nil => simp [splitOn]
  | cons c cs =>
      rw [splitOn]
      split
      · simp
      · split <;> simp

theorem splitOn_append (sep : Char) (cs cs' : List Char) :
    splitOn sep (cs ++ sep :: cs') = splitOn sep cs ++ splitOn sep cs' := by
  induction cs with
  | nil => simp [splitOn]
  | cons c cs ih =>
      by_cases h : c = sep
      · simp [splitOn, h, ih]
      · obtain ⟨part, parts, heq⟩ := List.exists_cons_of_ne_nil (splitOn_ne_nil sep cs)
        simp [splitOn, h, ih, heq]

theorem splitOn_of_notMem (h : sep ∉ cs) : splitOn sep cs = [cs] := by
  induction cs with
  | nil => rfl
  | cons c cs ih =>
      rw [List.mem_cons, not_or] at h
      simp [splitOn, Ne.symm h.1, ih h.2]

theorem flatMap_splitOn (h : ∀ part ∈ parts, sep ∉ part) : parts.flatMap (splitOn sep) = parts := by
  rw [List.flatMap_congr fun part hpart => splitOn_of_notMem (h part hpart)]
  exact List.flatMap_singleton' parts

theorem mem_of_mem_join (h : c ∈ join cs parts) : c ∈ cs ∨ ∃ part ∈ parts, c ∈ part := by
  induction parts with
  | nil => cases h
  | cons part parts ih =>
      cases parts with
      | nil => exact .inr ⟨part, List.mem_cons_self, by simpa [join] using h⟩
      | cons next parts =>
          rw [join, List.intercalate_cons_cons, List.append_assoc, List.mem_append,
            List.mem_append] at h
          rcases h with hpart | hsep | hrest
          · exact .inr ⟨part, List.mem_cons_self, hpart⟩
          · exact .inl hsep
          · rcases ih hrest with hsep | ⟨part', hpart', hc⟩
            · exact .inl hsep
            · exact .inr ⟨part', List.mem_cons_of_mem _ hpart', hc⟩

/-! ## Blanks -/

theorem dropBlanks_eq_cons_iff (hc : ¬isBlank c) :
    dropBlanks cs = c :: cs' ↔ ∃ blanks, (∀ b ∈ blanks, isBlank b) ∧ cs = blanks ++ c :: cs' := by
  constructor
  · intro h
    refine ⟨cs.takeWhile isBlank, fun b hb => List.mem_takeWhile_imp hb, ?_⟩
    exact (List.takeWhile_append_dropWhile.symm).trans (congrArg (_ ++ ·) h)
  · rintro ⟨blanks, hblanks, rfl⟩
    rw [dropBlanks, List.dropWhile_append_of_pos hblanks, List.dropWhile_cons_of_neg hc]

theorem trim_of_notBlank (h : ∀ c ∈ cs, ¬isBlank c) : trim cs = cs := by
  have hdrop (cs : List Char) (h : ∀ c ∈ cs, ¬isBlank c) : dropBlanks cs = cs := by
    cases cs with
    | nil => rfl
    | cons c cs => exact List.dropWhile_cons_of_neg (h c List.mem_cons_self)
  rw [trim, hdrop cs h, dropBlanksRight, hdrop cs.reverse fun c hc => h c (List.mem_reverse.mp hc),
    List.reverse_reverse]

/-- A blank behind a separator is trimmed away. -/
theorem map_trim_splitOn_cons (hc : isBlank c) (hne : c ≠ sep) (cs : List Char) :
    (splitOn sep (c :: cs)).map trim = (splitOn sep cs).map trim := by
  obtain ⟨part, parts, heq⟩ := List.exists_cons_of_ne_nil (splitOn_ne_nil sep cs)
  have htrim : trim (c :: part) = trim part := by
    rw [trim, trim, dropBlanks, List.dropWhile_cons_of_pos hc, ← dropBlanks]
  rw [splitOn, if_neg hne, heq, List.map_cons, List.map_cons, htrim]

/-- Parts without separators and blanks are read back from a list with both. -/
theorem map_trim_splitOn_join (hc : isBlank c) (hsep : c ≠ sep) (hne : parts ≠ [])
    (h : ∀ part ∈ parts, sep ∉ part ∧ ∀ c ∈ part, ¬isBlank c) :
    (splitOn sep (join [sep, c] parts)).map trim = parts := by
  induction parts with
  | nil => exact absurd rfl hne
  | cons part parts ih =>
      obtain ⟨⟨hpart, hblank⟩, h⟩ := List.forall_mem_cons.mp h
      cases parts with
      | nil => simp [join, splitOn_of_notMem hpart, trim_of_notBlank hblank]
      | cons next parts =>
          have hjoin : join [sep, c] (part :: next :: parts) =
              part ++ sep :: c :: join [sep, c] (next :: parts) := by
            simp [join, List.intercalate_cons_cons]
          rw [hjoin, splitOn_append, splitOn_of_notMem hpart, List.singleton_append, List.map_cons,
            map_trim_splitOn_cons hc hsep, ih (by simp) h, trim_of_notBlank hblank]

end Lexicolor.Text
