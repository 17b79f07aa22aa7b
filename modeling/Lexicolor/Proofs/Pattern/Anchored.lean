import Mathlib
import Lexicolor.Proofs.Pattern.EndMark

/-!
# Texts between a hat and a dollar

A hat in front of a text and a dollar behind it become parts of the first and
the last of its alternatives. So they bind the text as a whole only where it has
just one alternative.
-/

namespace Lexicolor.Pattern

variable {text w : List Char} {ls rest : List Lexeme} {c : Char} {p : Pattern} {s t : Spot}
variable {g g' o o' : OpenGroup} {outer outer' : List OpenGroup} {names : List (List Char)}
variable {flags : Flags}

/-! ## A hat in front -/

namespace OpenGroup

/-- What the hat in front of a text is read as. -/
def hat : Leveled (Option Pattern) := ⟨some (place .textStart), 0⟩

/-- The second group differs from the first by the hat in front of the first alternative. -/
inductive Hatted : OpenGroup → OpenGroup → Prop
  | first {flags : Flags} {parts : List (Leveled (Option Pattern))} :
      Hatted ⟨flags, [], parts⟩ ⟨flags, [], parts ++ [hat]⟩
  | later {flags : Flags} {before : List (Leveled Pattern)}
      {parts : List (Leveled (Option Pattern))} {a a' : Leveled Pattern}
      (h : a'.value = seq (place .textStart) a.value) :
      Hatted ⟨flags, before ++ [a], parts⟩ ⟨flags, before ++ [a'], parts⟩

/-- The groups are the same but for the hat in the outermost. -/
inductive HattedLast : List OpenGroup → List OpenGroup → Prop
  | last {g g' : OpenGroup} (h : Hatted g g') : HattedLast [g] [g']
  | inner {g : OpenGroup} {outer outer' : List OpenGroup} (h : HattedLast outer outer') :
      HattedLast (g :: outer) (g :: outer')

theorem Hatted.flags_eq (h : Hatted g g') : g'.flags = g.flags := by
  cases h <;> rfl

theorem Hatted.push (h : Hatted g g') (p : Pattern) (levels : Nat) :
    Hatted (g.push p levels) (g'.push p levels) := by
  cases h with
  | first => exact .first
  | later h => exact .later h

theorem Hatted.direct (h : Hatted g g') (flags : Flags) :
    Hatted (g.direct flags) (g'.direct flags) := by
  cases h with
  | first => exact .first
  | later h => exact .later h

theorem alternative_hat (flags : Flags) (before : List (Leveled Pattern))
    (parts : List (Leveled (Option Pattern))) :
    (OpenGroup.mk flags before (parts ++ [hat])).alternative.value =
      seq (place .textStart) (OpenGroup.mk flags before parts).alternative.value := by
  simp [alternative, hat, seqAll, List.reduceOption]

theorem Hatted.split (h : Hatted g g') : Hatted g.split g'.split := by
  cases h with
  | @first flags parts => exact @later flags [] [] _ _ (alternative_hat flags [] parts)
  | @later flags before parts a a' h =>
      exact @later flags (alternative ⟨flags, before ++ [a'], parts⟩ :: before) [] a a' h

theorem Hatted.repeatLast {numbers : Nat × Option Nat} {isLazy : Bool} {g₁ : OpenGroup}
    (h : Hatted g g') (hlast : g.repeatLast numbers isLazy = .ok g₁) :
    ∃ g₁', g'.repeatLast numbers isLazy = .ok g₁' ∧ Hatted g₁ g₁' := by
  cases h with
  | @first flags parts =>
      rcases parts with _ | ⟨⟨_ | p, levels⟩, parts⟩
      · cases hlast
      · cases hlast
      · cases hlast
        exact ⟨_, rfl, .first⟩
  | @later flags before parts a a' h =>
      rcases parts with _ | ⟨⟨_ | p, levels⟩, parts⟩
      · cases hlast
      · cases hlast
      · cases hlast
        exact ⟨_, rfl, .later h⟩

theorem HattedLast.flags_eq (h : HattedLast (g :: outer) (g' :: outer')) :
    g'.flags = g.flags := by
  cases h with
  | last h => exact h.flags_eq
  | inner => rfl

/-- A change of the innermost group that respects the hat. -/
theorem HattedLast.map {f : OpenGroup → OpenGroup}
    (hf : ∀ {g g' : OpenGroup}, Hatted g g' → Hatted (f g) (f g'))
    (h : HattedLast (g :: outer) (g' :: outer')) : HattedLast (f g :: outer) (f g' :: outer') := by
  cases h with
  | last h => exact .last (hf h)
  | inner h => exact .inner h

theorem HattedLast.repeatLast {numbers : Nat × Option Nat} {isLazy : Bool} {g₁ : OpenGroup}
    (h : HattedLast (g :: outer) (g' :: outer'))
    (hlast : g.repeatLast numbers isLazy = .ok g₁) :
    ∃ g₁', g'.repeatLast numbers isLazy = .ok g₁' ∧
      HattedLast (g₁ :: outer) (g₁' :: outer') := by
  cases h with
  | last h =>
      obtain ⟨g₁', hlast', h'⟩ := h.repeatLast hlast
      exact ⟨g₁', hlast', .last h'⟩
  | inner h => exact ⟨g₁, hlast, .inner h⟩

/-- The group that is closed is not the outermost. -/
theorem HattedLast.close (h : HattedLast (g :: o :: outer) (g' :: outer')) :
    g' = g ∧ ∃ o' rest, outer' = o' :: rest ∧ HattedLast (o :: outer) (o' :: rest) := by
  cases h with
  | inner h =>
      refine ⟨rfl, ?_⟩
      cases h with
      | last h => exact ⟨_, [], rfl, .last h⟩
      | inner h => exact ⟨o, _, rfl, .inner h⟩

end OpenGroup

open OpenGroup in
/-- A text that is read alone is also read between a hat and a dollar; the groups differ by what
these two are read as. -/
theorem readGroup_hatted (h : readGroup g outer names ls = .ok o)
    (hhat : HattedLast (g :: outer) (g' :: outer')) :
    ∃ o', Hatted o o' ∧
      readGroup g' outer' names (ls ++ [Lexeme.plain '$']) =
        .ok (o'.push (o.flags.plain '$') 0) := by
  -- the hat stays in the outermost group, so each step does the same to both innermost groups
  fun_induction readGroup g outer names ls generalizing g' outer' with
  | case1 g outer names hempty =>
      cases h
      rw [List.isEmpty_iff] at hempty
      subst hempty
      cases hhat with
      | last hhat =>
          refine ⟨g', hhat, ?_⟩
          rw [List.nil_append, readGroup_plain (by decide), readGroup, hhat.flags_eq]
          rfl
      | inner hhat => cases hhat
  | case3 g outer names c ls ih =>
      rw [List.cons_append, readGroup_literal, hhat.flags_eq]
      exact ih h (hhat.map fun hg => hg.push _ 0)
  | case4 g outer names set ls ih =>
      rw [List.cons_append, readGroup_class]
      exact ih h (hhat.map fun hg => hg.push _ 0)
  | case5 g outer names a ls ih =>
      rw [List.cons_append, readGroup_place]
      exact ih h (hhat.map fun hg => hg.push _ 0)
  | case6 g outer names ls flags rest hhead ih =>
      rw [List.cons_append, readGroup_group (hhat.flags_eq ▸ groupHead_append_dollar hhead)]
      exact ih h (.inner hhat)
  | case7 g outer names ls flags rest hhead ih =>
      rw [List.cons_append, readGroup_directive (hhat.flags_eq ▸ groupHead_append_dollar hhead)]
      exact ih h (hhat.map fun hg => hg.direct flags)
  | case9 g outer names ls name rest hhead hname ih =>
      rw [List.cons_append,
        readGroup_named hname (hhat.flags_eq ▸ groupHead_append_dollar hhead), hhat.flags_eq]
      exact ih h (.inner hhat)
  | case12 g names ls o outer _ ih =>
      -- only inner groups are closed, and they are the same in both
      obtain ⟨rfl, o', rest, rfl, houter⟩ := hhat.close
      rw [List.cons_append, readGroup_close]
      exact ih h (houter.map fun hg => hg.push _ _)
  | case13 g outer names ls _ _ ih =>
      rw [List.cons_append, readGroup_bar]
      exact ih h (hhat.map Hatted.split)
  | case14 g outer names ls set rest hset _ _ _ ih =>
      have hset' : readSet g'.flags (openSet (ls ++ [Lexeme.plain '$'])).1 []
          (openSet (ls ++ [Lexeme.plain '$'])).2 = .ok (set, rest ++ [Lexeme.plain '$']) := by
        rw [openSet_append_dollar, hhat.flags_eq]
        exact readSet_append_dollar hset
      rw [List.cons_append, readGroup_set hset']
      exact ih h (hhat.map fun hg => hg.push _ _)
  | case16 g outer names c ls _ _ _ _ hc numbers rest hcounts g₁ hlast ih =>
      obtain ⟨g₁', hlast', hhat'⟩ := hhat.repeatLast hlast
      have hlazy := takeLazy_append_dollar rest
      rw [List.cons_append, readGroup_counts hc (readCounts_append_dollar hcounts)
        (by rwa [hlazy]), hlazy]
      exact ih h hhat'
  | case19 g outer names c ls hopen hclose hbar hset hcounts ih =>
      have hplain : c ∉ ['(', ')', '|', '[', '*', '+', '?', '\x7b'] := by
        simp only [List.mem_cons, List.not_mem_nil, or_false, not_or] at hcounts ⊢
        exact ⟨hopen, hclose, hbar, hset, hcounts⟩
      rw [List.cons_append, readGroup_plain hplain, hhat.flags_eq]
      exact ih h (hhat.map fun hg => hg.push _ 0)
  | case2 | case8 | case10 | case11 | case15 | case17 | case18 => cases h

/-! ## What the marks bind -/

theorem mem_ends_altAll {ps : List Pattern} (h : ps ≠ []) :
    t ∈ (altAll ps).ends s ↔ ∃ p ∈ ps, t ∈ p.ends s := by
  induction ps with
  | nil => exact absurd rfl h
  | cons p ps ih =>
      cases ps with
      | nil => simp [altAll]
      | cons q ps =>
          have halt : t ∈ (altAll (p :: q :: ps)).ends s ↔
              t ∈ p.ends s ∨ t ∈ (altAll (q :: ps)).ends s := by
            show t ∈ (alt p (altAll (q :: ps))).ends s ↔ _
            rw [ends, List.mem_eraseDups, List.mem_append]
          rw [halt, ih (List.cons_ne_nil q ps)]
          exact (List.exists_mem_cons_iff (fun p => t ∈ p.ends s) p (q :: ps)).symm

theorem exists_split_singleton {α : Type} {a : α} {P : Bool → α → Bool → Prop} :
    (∃ before x after, [a] = before ++ x :: after ∧ P before.isEmpty x after.isEmpty) ↔
      P true a true := by
  constructor
  · rintro ⟨before, x, after, hsplit, hP⟩
    obtain ⟨rfl, hx⟩ | ⟨-, hx⟩ := List.singleton_eq_append_iff.mp hsplit
    · cases hx
      exact hP
    · cases hx
  · intro hP
    exact ⟨[], a, [], rfl, hP⟩

/-- The elements of a list of two or more: the first, those in between, and the last. -/
theorem exists_split_iff {α : Type} {a z : α} {middle : List α} {P : Bool → α → Bool → Prop} :
    (∃ before x after, a :: (middle ++ [z]) = before ++ x :: after ∧
      P before.isEmpty x after.isEmpty) ↔
      P true a false ∨ (∃ x ∈ middle, P false x false) ∨ P false z true := by
  have hconcat (l : List α) (x : α) : (l ++ [x]).isEmpty = false := by cases l <;> rfl
  constructor
  · rintro ⟨before, x, after, hsplit, hP⟩
    cases before with
    | nil =>
        obtain ⟨rfl, rfl⟩ := List.cons.inj hsplit
        exact .inl (hconcat middle z ▸ hP)
    | cons b before =>
        have htail : middle ++ [z] = before ++ x :: after := (List.cons.inj hsplit).2
        rcases List.eq_nil_or_concat after with rfl | ⟨after, y, rfl⟩
        · obtain ⟨-, hx⟩ := List.append_inj' htail rfl
          cases hx
          exact .inr (.inr hP)
        · rw [List.concat_eq_append] at hP htail
          have htail : middle ++ [z] = (before ++ x :: after) ++ [y] := by simpa using htail
          obtain ⟨rfl, -⟩ := List.append_inj' htail rfl
          exact .inr (.inl ⟨x, by simp, by rwa [hconcat after y] at hP⟩)
  · rintro (hP | ⟨x, hx, hP⟩ | hP)
    · exact ⟨[], a, middle ++ [z], rfl, (hconcat middle z).symm ▸ hP⟩
    · obtain ⟨before, after, rfl⟩ := List.append_of_mem hx
      exact ⟨a :: before, x, after ++ [z], by simp, (hconcat after z).symm ▸ hP⟩
    · exact ⟨a :: middle, z, [], rfl, hP⟩

namespace OpenGroup

/-- The alternatives of the text, in order. -/
def alternatives (g : OpenGroup) : List Pattern :=
  ((g.alternative :: g.before).map Leveled.value).reverse

theorem alternatives_ne_nil (g : OpenGroup) : g.alternatives ≠ [] := by
  simp [alternatives]

theorem mem_ends_close : t ∈ g.close.value.ends s ↔ ∃ p ∈ g.alternatives, t ∈ p.ends s :=
  mem_ends_altAll g.alternatives_ne_nil

/-- What a dollar behind the text asks for: flags that hold up to the end of the text are also
those of the dollar. -/
def endMark (g : OpenGroup) : Assertion := if g.flags.multiLine then .lineEnd else .textEnd

theorem plain_dollar (g : OpenGroup) : g.flags.plain '$' = place g.endMark := rfl

/-- A match from one spot to the other, which starts where the text does if the pattern is the
first, and ends at the mark if it is the last. -/
def BoundMatch (mark : Assertion) (s t : Spot) (first : Bool) (p : Pattern) (last : Bool) : Prop :=
  t ∈ p.ends s ∧ (first → s.last.isNone) ∧ (last → mark.holds t)

/-- Some alternative matches a piece of the word. Just the first alternative must start where the
word does, and just the last one must end where the word, or a line of it, does. -/
def Catches (g : OpenGroup) (w : List Char) : Prop :=
  ∃ s ∈ Spot.onwards none w, ∃ t before p after, g.alternatives = before ++ p :: after ∧
    BoundMatch g.endMark s t before.isEmpty p after.isEmpty

theorem mem_ends_seq_place {a : Assertion} :
    t ∈ (seq (place a) p).ends s ↔ a.holds s ∧ t ∈ p.ends s := by
  by_cases h : a.holds s <;> simp [ends, h]

theorem mem_ends_push_place {a : Assertion} :
    t ∈ (g.push (place a) 0).alternative.value.ends s ↔
      t ∈ g.alternative.value.ends s ∧ a.holds t := by
  have hparts : (g.push (place a) 0).alternative.value =
      seqAll ((g.parts.map Leveled.value).reverse.reduceOption ++ [place a]) := by
    simp [alternative, push, List.reduceOption]
  rw [hparts, mem_ends_seqAll_append]
  constructor
  · rintro ⟨u, hu, ht⟩
    obtain ⟨ha, rfl⟩ := mem_ends_place.mp ht
    exact ⟨hu, ha⟩
  · rintro ⟨ht, ha⟩
    exact ⟨t, ht, mem_ends_place.mpr ⟨ha, rfl⟩⟩

theorem alternatives_singleton (flags : Flags) (parts : List (Leveled (Option Pattern))) :
    (OpenGroup.mk flags [] parts).alternatives =
      [(OpenGroup.mk flags [] parts).alternative.value] := rfl

theorem alternatives_concat (flags : Flags) (before : List (Leveled Pattern))
    (a : Leveled Pattern) (parts : List (Leveled (Option Pattern))) :
    (OpenGroup.mk flags (before ++ [a]) parts).alternatives =
      a.value :: ((before.map Leveled.value).reverse ++
        [(OpenGroup.mk flags [] parts).alternative.value]) := by
  simp [alternatives, alternative]

theorem Hatted.mem_ends_close (h : Hatted g g') {mark : Assertion} :
    t ∈ (g'.push (place mark) 0).close.value.ends s ↔
      ∃ before p after, g.alternatives = before ++ p :: after ∧
        BoundMatch mark s t before.isEmpty p after.isEmpty := by
  rw [OpenGroup.mem_ends_close]
  cases h with
  | @first flags parts =>
      have hmarked :
          ((OpenGroup.mk flags [] (parts ++ [hat])).push (place mark) 0).alternatives = _ :=
        alternatives_singleton ..
      have hends :
          t ∈ ((OpenGroup.mk flags [] (parts ++ [hat])).push (place mark) 0).alternative.value.ends
              s ↔
            BoundMatch mark s t true (OpenGroup.mk flags [] parts).alternative.value true := by
        rw [mem_ends_push_place, alternative_hat, mem_ends_seq_place]
        simp only [BoundMatch, Assertion.holds, forall_const]
        tauto
      -- the only alternative has both marks
      rw [alternatives_singleton, exists_split_singleton, hmarked]
      simp only [List.mem_singleton, exists_eq_left]
      exact hends
  | @later flags before parts a a' h =>
      have hmarked :
          ((OpenGroup.mk flags (before ++ [a']) parts).push (place mark) 0).alternatives = _ :=
        alternatives_concat ..
      -- the first alternative has the hat, the last one the dollar, and the others have neither
      have hfirst : t ∈ a'.value.ends s ↔ BoundMatch mark s t true a.value false := by
        rw [h, mem_ends_seq_place]
        simp [BoundMatch, Assertion.holds, and_comm]
      have hlast :
          t ∈ ((OpenGroup.mk flags [] parts).push (place mark) 0).alternative.value.ends s ↔
            BoundMatch mark s t false (OpenGroup.mk flags [] parts).alternative.value true := by
        rw [mem_ends_push_place]
        simp [BoundMatch]
      have hmiddle (p : Pattern) : t ∈ p.ends s ↔ BoundMatch mark s t false p false := by
        simp [BoundMatch]
      rw [alternatives_concat, exists_split_iff, hmarked]
      simp only [List.mem_cons, List.mem_append, List.not_mem_nil, or_false,
        or_and_right, exists_or, exists_eq_left]
      exact or_congr hfirst (or_congr
        (exists_congr fun p => and_congr_right fun _ => hmiddle p) hlast)

/-- A hat and a dollar around a text bind its first and its last alternative. -/
theorem Hatted.isIn_iff (h : Hatted g g') (w : List Char) :
    (g'.push (g.flags.plain '$') 0).close.value.isIn w ↔ g.Catches w := by
  rw [Pattern.isIn_iff, plain_dollar]
  simp only [h.mem_ends_close, Catches]

/-- A match of the whole word is caught. -/
theorem catches_of_fits (h : g.close.value.fits w) : g.Catches w := by
  obtain ⟨t, ht, hempty⟩ := List.any_eq_true.mp h
  obtain ⟨p, hp, ht⟩ := mem_ends_close.mp ht
  obtain ⟨before, after, hsplit⟩ := List.append_of_mem hp
  refine ⟨.start w, Spot.start_mem_onwards w, t, before, p, after, hsplit, ht, fun _ => rfl, ?_⟩
  intro _
  rw [List.isEmpty_iff] at hempty
  unfold endMark
  split <;> simp [Assertion.holds, hempty]

/-- Where there is just one alternative, and the dollar asks for the end of the text, only whole
words are caught. -/
theorem catches_iff_fits (hsingle : g.before = []) (hmark : g.flags.multiLine = false) :
    g.Catches w ↔ g.close.value.fits w := by
  refine ⟨fun h => ?_, catches_of_fits⟩
  obtain ⟨flags, before, parts⟩ := g
  obtain rfl : before = [] := hsingle
  have hend : (OpenGroup.mk flags [] parts).endMark = .textEnd := by
    simp only at hmark
    simp [endMark, hmark]
  simp only [Catches, alternatives_singleton, exists_split_singleton, hend] at h
  obtain ⟨s, hs, t, ht, hfirst, hlast⟩ := h
  obtain rfl := eq_start_of_mem_onwards hs (Option.isNone_iff_eq_none.mp (hfirst rfl))
  exact List.any_eq_true.mpr ⟨t, ht, hlast rfl⟩

theorem le_foldl_max (levels : List Nat) (m : Nat) :
    m ≤ levels.foldl max m ∧ ∀ l ∈ levels, l ≤ levels.foldl max m := by
  induction levels generalizing m with
  | nil => simp
  | cons k levels ih =>
      obtain ⟨hstart, hlevels⟩ := ih (max m k)
      rw [List.foldl_cons, List.forall_mem_cons]
      exact ⟨(le_max_left m k).trans hstart, (le_max_right m k).trans hstart, hlevels⟩

theorem le_rowLevels {levels : List Nat} {l : Nat} (h : l ∈ levels) : l ≤ rowLevels levels := by
  unfold rowLevels
  split
  · cases h
  · exact (List.mem_singleton.mp h).le
  · exact Nat.le_succ_of_le ((le_foldl_max levels 0).2 l h)

/-- The marks around a single alternative make it at most one level deeper. -/
theorem Hatted.levels_close_le (h : Hatted g g') (hsingle : g.before = []) (mark : Assertion) :
    (g'.push (place mark) 0).close.levels ≤ g.close.levels + 1 := by
  cases h with
  | @first flags parts =>
      show rowLevels (0 :: (parts ++ [hat]).map Leveled.levels) ≤
        rowLevels (parts.map Leveled.levels) + 1
      apply rowLevels_le
      rw [List.map_append, List.forall_mem_cons]
      refine ⟨Nat.zero_le _, fun l hl => ?_⟩
      rcases List.mem_append.mp hl with hl | hl
      · exact le_rowLevels hl
      · exact List.mem_singleton.mp hl ▸ Nat.zero_le _
  | later => cases List.append_eq_nil_iff.mp hsingle |>.2

end OpenGroup

/-! ## Texts on their own -/

theorem Opens.unique (h : Opens text g) (h' : Opens text g') : g = g' := by
  obtain ⟨lexs, hlexs, hgroup⟩ := h
  obtain ⟨lexs', hlexs', hgroup'⟩ := h'
  cases hlexs.symm.trans hlexs'
  exact Except.ok.inj (hgroup.symm.trans hgroup')

theorem read_eq_ok_iff :
    read text = .ok p ↔ ∃ g, Opens text g ∧ g.close.levels ≤ maxLevels ∧ g.close.value = p := by
  constructor
  · intro h
    cases hlexs : lexemes text with
    | error e =>
        rw [read, hlexs] at h
        cases h
    | ok lexs =>
        cases hgroup : readGroup (.start {}) [] [] lexs with
        | error e =>
            simp only [read, hlexs, hgroup, bind, Except.bind] at h
            cases h
        | ok g =>
            simp only [read, hlexs, hgroup, bind, Except.bind] at h
            split at h
            next hlevels =>
              cases h
              exact ⟨g, ⟨lexs, hlexs, hgroup⟩, hlevels, rfl⟩
            next => cases h
  · rintro ⟨g, hopens, hlevels, rfl⟩
    exact hopens.read_eq hlevels

/-- A row of parts is a single alternative, and sets no flags. -/
theorem Course.exists_opens {depth : Nat} {R : Spot → Spot → Prop} (h : Course depth text R) :
    ∃ g, Opens text g ∧ g.before = [] ∧ g.flags = {} ∧ g.close.levels ≤ depth + 1 := by
  obtain ⟨parts, hread, hparts, -⟩ := h
  refine ⟨_, hread.opens, OpenGroup.before_pushAll .., OpenGroup.flags_pushAll .., ?_⟩
  rw [OpenGroup.close_pushAll]
  exact OpenGroup.levels_rowOf_le hparts

open OpenGroup in
theorem Opens.anchored (h : Opens text g) :
    ∃ g', Hatted g g' ∧ Opens ('^' :: text ++ ['$']) (g'.push (g.flags.plain '$') 0) := by
  obtain ⟨lexs, hlexs, hgroup⟩ := h
  have hhat : HattedLast [.start {}] [(OpenGroup.start {}).push (({} : Flags).plain '^') 0] :=
    .last .first
  obtain ⟨g', hg', hread⟩ := readGroup_hatted hgroup hhat
  refine ⟨g', hg', .plain '^' :: lexs ++ [Lexeme.plain '$'], ?_, ?_⟩
  · rw [List.cons_append, lexemes_plain (by decide), lexemes_append_dollar hlexs]
    rfl
  · rw [List.cons_append, readGroup_plain (by decide)]
    exact hread

/-- A single alternative with levels to spare can also be read between the marks. -/
theorem Opens.exists_read (h : Opens text g) (hsingle : g.before = [])
    (hlevels : g.close.levels < maxLevels) : ∃ q, read ('^' :: text ++ ['$']) = .ok q := by
  obtain ⟨g', hhat, hopens⟩ := h.anchored
  have hle := hhat.levels_close_le hsingle g.endMark
  exact ⟨_, read_eq_ok_iff.mpr ⟨_, hopens, hle.trans hlevels, rfl⟩⟩

/-- Between a hat and a dollar, the text matches what its group catches. -/
theorem Opens.isIn_iff {q : Pattern} (h : Opens text g)
    (hq : read ('^' :: text ++ ['$']) = .ok q) (w : List Char) : q.isIn w ↔ g.Catches w := by
  obtain ⟨g', hhat, hopens⟩ := h.anchored
  obtain ⟨o, ho, -, rfl⟩ := read_eq_ok_iff.mp hq
  rw [ho.unique hopens]
  exact hhat.isIn_iff w

end Lexicolor.Pattern
