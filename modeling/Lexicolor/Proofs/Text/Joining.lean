import Mathlib
import Lexicolor.Proofs.Text.Search

/-!
# Joined parts and replacements

A text is read as parts with separators between them. What has a separator in it
stands in joined parts only where two of them meet, and a replacement changes
nothing where the needle does not stand.
-/

namespace Lexicolor.Text

variable {sep : Char} {parts : List (List Char)}
variable {cs needle new left right part next before after rest : List Char}

/-! ## Replacements -/

theorem replaceAll_cons {c : Char} (h : ¬needle <+: c :: cs) :
    replaceAll needle new (c :: cs) = c :: replaceAll needle new cs := by
  rw [replaceAll, if_neg (by rwa [List.isPrefixOf_iff_prefix])]

theorem replaceAll_of_not_isInfix (h : ¬needle <:+: cs) : replaceAll needle new cs = cs := by
  induction cs with
  | nil => rw [replaceAll]
  | cons c cs ih =>
      rw [List.infix_cons_iff, not_or] at h
      rw [replaceAll_cons h.1, ih h.2]

theorem replaceAll_append (hneedle : needle ≠ []) (cs : List Char) :
    replaceAll needle new (needle ++ cs) = new ++ replaceAll needle new cs := by
  obtain ⟨c, needle, rfl⟩ := List.exists_cons_of_ne_nil hneedle
  have hprefix : (c :: needle).isPrefixOf (c :: (needle ++ cs)) = true :=
    List.isPrefixOf_iff_prefix.mpr ⟨cs, rfl⟩
  rw [List.cons_append, replaceAll, if_pos hprefix, List.length_cons, Nat.add_sub_cancel,
    List.drop_left]

/-- No occurrence of the needle ends the first text and starts the second. -/
def NoneAcross (needle before after : List Char) : Prop :=
  ∀ left right, left ≠ [] → right ≠ [] → needle = left ++ right → left <:+ before →
    ¬right <+: after

theorem NoneAcross.of_suffix (h : NoneAcross needle before after) (hsuffix : left <:+ before) :
    NoneAcross needle left after :=
  fun first last hfirst hlast heq hends => h first last hfirst hlast heq (hends.trans hsuffix)

/-- Where no occurrence reaches over their border, two texts are changed one by one. -/
theorem NoneAcross.replaceAll_append (h : NoneAcross needle before after) (hneedle : needle ≠ [])
    (new : List Char) : replaceAll needle new (before ++ after) =
      replaceAll needle new before ++ replaceAll needle new after := by
  induction hlength : before.length using Nat.strong_induction_on generalizing before with
  | _ n ih =>
    subst hlength
    -- an occurrence at the start lies in the first text, or there is none at all
    by_cases hprefix : needle <+: before
    · obtain ⟨rest, rfl⟩ := hprefix
      have hshorter : rest.length < (needle ++ rest).length := by
        have := List.length_pos_of_ne_nil hneedle
        rw [List.length_append]
        omega
      have hrest := ih rest.length hshorter (h.of_suffix (List.suffix_append needle rest)) rfl
      rw [List.append_assoc, Text.replaceAll_append hneedle, Text.replaceAll_append hneedle, hrest,
        List.append_assoc]
    cases before with
    | nil => rw [replaceAll, List.nil_append, List.nil_append]
    | cons c before =>
        have hnot : ¬needle <+: c :: (before ++ after) := by
          rw [← List.cons_append]
          intro hlong
          rcases List.prefix_or_prefix_of_prefix hlong (List.prefix_append _ after) with hin | hin
          · exact hprefix hin
          · obtain ⟨right, rfl⟩ := hin
            have hright : right ≠ [] := by
              rintro rfl
              exact hprefix (by rw [List.append_nil])
            exact h _ right (List.cons_ne_nil c before) hright rfl List.suffix_rfl
              ((List.prefix_append_right_inj _).mp hlong)
        have hbefore := ih before.length (Nat.lt_succ_self _)
          (h.of_suffix (List.suffix_cons c before)) rfl
        rw [List.cons_append, replaceAll_cons hnot, replaceAll_cons hprefix, hbefore,
          List.cons_append]

/-! ## Where two texts meet -/

/-- A run of characters ends where a text starts with another one. -/
theorem takeWhile_append_of_head {p : Char → Bool} (hcs : ∀ c ∈ cs, p c)
    (hrest : ∀ c ∈ rest.head?, ¬p c) : (cs ++ rest).takeWhile p = cs := by
  rw [List.takeWhile_append_of_pos hcs]
  cases rest with
  | nil => simp
  | cons c rest => simp [hrest c rfl]

theorem dropWhile_append_of_head {p : Char → Bool} (hcs : ∀ c ∈ cs, p c)
    (hrest : ∀ c ∈ rest.head?, ¬p c) : (cs ++ rest).dropWhile p = rest := by
  rw [List.dropWhile_append_of_pos hcs]
  cases rest with
  | nil => simp
  | cons c rest => simp [hrest c rfl]

/-- Within a run of characters stands one of them. -/
theorem drop_of_lt_takeWhile {p : Char → Bool} {i : Nat} (h : i < (cs.takeWhile p).length) :
    ∃ c rest, cs.drop i = c :: rest ∧ p c := by
  have hdrop : cs.drop i = (cs.takeWhile p).drop i ++ cs.dropWhile p := by
    rw [← List.drop_append_of_le_length h.le, List.takeWhile_append_dropWhile]
  rw [hdrop, List.drop_eq_getElem_cons h]
  exact ⟨_, _, rfl, List.mem_takeWhile_imp (List.getElem_mem h)⟩

/-- An occurrence lies in one of two texts, or a part of it ends the first and the rest starts the
second. -/
theorem isInfix_append_cases (h : needle <:+: before ++ after) :
    needle <:+: before ∨ needle <:+: after ∨
      ∃ left right, left ≠ [] ∧ right ≠ [] ∧ needle = left ++ right ∧
        left <:+ before ∧ right <+: after := by
  obtain ⟨first, last, heq⟩ := h
  rw [List.append_assoc] at heq
  rcases List.append_eq_append_iff.mp heq with ⟨between, rfl, hrest⟩ | ⟨between, rfl, hafter⟩
  · rcases List.append_eq_append_iff.mp hrest with ⟨between', rfl, -⟩ | ⟨right, rfl, hafter⟩
    · exact .inl ⟨first, between', by rw [List.append_assoc]⟩
    · by_cases hbetween : between = []
      · exact .inr (.inl (hbetween ▸ ⟨[], last, by simp [hafter]⟩))
      · by_cases hright : right = []
        · exact .inl ⟨first, [], by simp [hright]⟩
        · exact .inr (.inr ⟨between, right, hbetween, hright, rfl, ⟨first, rfl⟩, last, hafter.symm⟩)
  · exact .inr (.inl ⟨between, last, by rw [hafter, List.append_assoc]⟩)

/-- What has one separator in it stands at the border of a part, or in what follows. -/
theorem isInfix_append_sep_cases (hleft : sep ∉ left) (hright : sep ∉ right) (hpart : sep ∉ part)
    (h : left ++ sep :: right <:+: part ++ sep :: rest) :
    (left <:+ part ∧ right <+: rest) ∨ left ++ sep :: right <:+: rest := by
  rcases isInfix_append_cases h with hin | hin | ⟨first, last, -, hlast, heq, hfirst, hrest⟩
  · exact absurd (hin.subset (List.mem_append_right _ List.mem_cons_self)) hpart
  · rcases List.infix_cons_iff.mp hin with hprefix | hin
    · cases left with
      | nil => exact .inl ⟨List.nil_suffix, (List.cons_prefix_cons.mp hprefix).2⟩
      | cons c left =>
          have hc := (List.cons_prefix_cons.mp hprefix).1
          exact absurd (hc ▸ List.mem_cons_self) hleft
    · exact .inr hin
  · obtain ⟨c, last, rfl⟩ := List.exists_cons_of_ne_nil hlast
    obtain ⟨rfl, hstart⟩ := List.cons_prefix_cons.mp hrest
    obtain ⟨rfl, -, rfl⟩ := (List.append_cons_inj_of_notMem hleft hright).mp heq
    exact .inl ⟨hfirst, hstart⟩

/-! ## Joined parts -/

theorem join_cons_cons (sep part next : List Char) (parts : List (List Char)) :
    join sep (part :: next :: parts) = part ++ (sep ++ join sep (next :: parts)) := by
  rw [join, List.intercalate_cons_cons, List.append_assoc, join]

theorem join_singleton (sep part : List Char) : join sep [part] = part := by
  simp [join]

/-- What has no separator belongs to the first part. -/
theorem exists_splitOn_append (h : sep ∉ before) (cs : List Char) : ∃ part parts,
    splitOn sep cs = part :: parts ∧ splitOn sep (before ++ cs) = (before ++ part) :: parts := by
  induction before with
  | nil =>
      obtain ⟨part, parts, heq⟩ := List.exists_cons_of_ne_nil (splitOn_ne_nil sep cs)
      exact ⟨part, parts, heq, heq⟩
  | cons c before ih =>
      rw [List.mem_cons, not_or] at h
      obtain ⟨part, parts, heq, happend⟩ := ih h.2
      exact ⟨part, parts, heq, by simp [splitOn, Ne.symm h.1, happend]⟩

theorem subset_of_mem_splitOn (h : part ∈ splitOn sep cs) : part ⊆ cs := by
  induction cs generalizing part with
  | nil =>
      rw [List.mem_singleton.mp h]
      exact List.Subset.refl []
  | cons c cs ih =>
      obtain ⟨first, parts, heq⟩ := List.exists_cons_of_ne_nil (splitOn_ne_nil sep cs)
      rw [heq] at ih
      rw [splitOn, heq] at h
      split at h
      next =>
        rcases List.mem_cons.mp h with rfl | h
        · exact List.nil_subset _
        · exact List.subset_cons_of_subset c (ih h)
      next =>
        rcases List.mem_cons.mp h with rfl | h
        · exact List.cons_subset_cons c (ih List.mem_cons_self)
        · exact List.subset_cons_of_subset c (ih (List.mem_cons_of_mem first h))

/-- The parts of a text have no separators. -/
theorem notMem_of_mem_splitOn (h : part ∈ splitOn sep cs) : sep ∉ part := by
  induction cs generalizing part with
  | nil =>
      rw [List.mem_singleton.mp h]
      exact List.not_mem_nil
  | cons c cs ih =>
      obtain ⟨first, parts, heq⟩ := List.exists_cons_of_ne_nil (splitOn_ne_nil sep cs)
      rw [heq] at ih
      rw [splitOn, heq] at h
      split at h
      next =>
        rcases List.mem_cons.mp h with rfl | h
        · exact List.not_mem_nil
        · exact ih h
      next hc =>
        rcases List.mem_cons.mp h with rfl | h
        · exact List.not_mem_cons_of_ne_of_not_mem (Ne.symm hc) (ih List.mem_cons_self)
        · exact ih (List.mem_cons_of_mem first h)

/-- The parts of a text are joined to the text. -/
theorem join_splitOn (sep : Char) (cs : List Char) : join [sep] (splitOn sep cs) = cs := by
  induction cs with
  | nil => rfl
  | cons c cs ih =>
      obtain ⟨part, parts, heq⟩ := List.exists_cons_of_ne_nil (splitOn_ne_nil sep cs)
      rw [splitOn]
      split
      next hc => rw [heq, join_cons_cons, ← heq, ih, hc, List.nil_append, List.singleton_append]
      next =>
        have hfirst : join [sep] ((c :: part) :: parts) = c :: join [sep] (part :: parts) := by
          cases parts with
          | nil => rw [join_singleton, join_singleton]
          | cons next parts => rw [join_cons_cons, join_cons_cons, List.cons_append]
        rw [heq] at ih ⊢
        exact hfirst.trans (congrArg (c :: ·) ih)

/-- The parts are read back where no part has the separator. -/
theorem splitOn_join (hne : parts ≠ []) (h : ∀ part ∈ parts, sep ∉ part) :
    splitOn sep (join [sep] parts) = parts := by
  induction parts with
  | nil => exact absurd rfl hne
  | cons part parts ih =>
      obtain ⟨hpart, h⟩ := List.forall_mem_cons.mp h
      cases parts with
      | nil => rw [join_singleton, splitOn_of_notMem hpart]
      | cons next parts =>
          rw [join_cons_cons, List.singleton_append, splitOn_append, splitOn_of_notMem hpart,
            ih (List.cons_ne_nil _ _) h, List.singleton_append]

theorem join_append {group others : List (List Char)} (hgroup : group ≠ []) (hothers : others ≠ [])
    (sep : List Char) :
    join sep (group ++ others) = join sep group ++ (sep ++ join sep others) := by
  induction group with
  | nil => exact absurd rfl hgroup
  | cons part group ih =>
      cases group with
      | nil =>
          obtain ⟨next, others, rfl⟩ := List.exists_cons_of_ne_nil hothers
          rw [List.singleton_append, join_cons_cons, join_singleton]
      | cons next group =>
          rw [List.cons_append, List.cons_append, join_cons_cons, ← List.cons_append,
            ih (List.cons_ne_nil _ _), join_cons_cons, List.append_assoc, List.append_assoc]

/-- Joining groups of joined parts joins all the parts. -/
theorem join_map_join {groups : List (List (List Char))} (h : ∀ group ∈ groups, group ≠ [])
    (sep : List Char) : join sep (groups.map (join sep)) = join sep groups.flatten := by
  induction groups with
  | nil => rfl
  | cons group groups ih =>
      obtain ⟨hgroup, h⟩ := List.forall_mem_cons.mp h
      cases groups with
      | nil => simp [join_singleton]
      | cons next groups =>
          have hrest : (next :: groups).flatten ≠ [] := by
            simpa using fun hnext => absurd hnext (h next List.mem_cons_self)
          rw [List.map_cons, List.map_cons, join_cons_cons, ← List.map_cons, ih h]
          exact (join_append hgroup hrest sep).symm

/-- What has one separator in it does not stand in joined parts if it stands where no two parts
meet. -/
theorem not_isInfix_join (hleft : sep ∉ left) (hright : sep ∉ right)
    (hparts : ∀ part ∈ parts, sep ∉ part)
    (h : parts.IsChain fun part next => ¬(left <:+ part ∧ right <+: next)) :
    ¬left ++ sep :: right <:+: join [sep] parts := by
  induction parts with
  | nil => simp [join]
  | cons part parts ih =>
      obtain ⟨hpart, hparts⟩ := List.forall_mem_cons.mp hparts
      intro hin
      cases parts with
      | nil =>
          rw [join_singleton] at hin
          exact hpart (hin.subset (List.mem_append_right _ List.mem_cons_self))
      | cons next parts =>
          obtain ⟨hmeet, h⟩ := List.isChain_cons_cons.mp h
          rw [join_cons_cons, List.singleton_append] at hin
          rcases isInfix_append_sep_cases hleft hright hpart hin with ⟨hsuffix, hprefix⟩ | hin
          · refine hmeet ⟨hsuffix, ?_⟩
            -- what stands at the start of the rest does not reach the next separator
            cases parts with
            | nil => rwa [join_singleton] at hprefix
            | cons more parts =>
                rw [join_cons_cons, List.singleton_append] at hprefix
                by_contra hlong
                have hle : (next ++ [sep]).length ≤ right.length := by
                  by_contra hle
                  refine hlong (List.prefix_of_prefix_length_le hprefix ⟨_, rfl⟩ ?_)
                  simpa [Nat.lt_succ_iff] using hle
                have hsep : next ++ [sep] <+: right :=
                  List.prefix_of_prefix_length_le ⟨_, by rw [List.append_assoc]; rfl⟩ hprefix hle
                exact hright (hsep.subset (List.mem_append_right _ List.mem_cons_self))
          · exact ih hparts h hin

end Lexicolor.Text
