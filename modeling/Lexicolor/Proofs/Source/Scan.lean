import Mathlib
import Lexicolor.Proofs.Text.Joining
import Lexicolor.Source.Scan

/-!
# What scans find

Each part of an initialiser or a call is found exactly where the text starts with
it, and what follows is left over. A search finds what stands at the first place
where anything does.
-/

namespace Lexicolor.Source

open Text

variable {p : Char → Bool} {c mark : Char} {blanks cs found name rest word : List Char}

/-- Blanks and nothing else. -/
def Blank (cs : List Char) : Prop := ∀ c ∈ cs, isBlank c

/-- Letters, digits and underscores. -/
structure IsName (word : List Char) : Prop where
  ne_nil : word ≠ []
  chars : ∀ c ∈ word, isIdentChar c

theorem Blank.notMem (h : Blank cs) (hc : ¬isBlank c) : c ∉ cs := fun hmem => hc (h c hmem)

theorem IsName.notMem (h : IsName word) (hc : ¬isIdentChar c) : c ∉ word := fun hmem =>
  hc (h.chars c hmem)

theorem not_isIdentChar_of_isBlank (h : isBlank c) : ¬isIdentChar c := by
  intro hident
  have hval : c.val.toNat = c.toNat := rfl
  simp only [isIdentChar, Char.isAlphanum, Char.isAlpha, Char.isUpper, Char.isLower, Char.isDigit,
    Bool.or_eq_true, Bool.and_eq_true, decide_eq_true_eq, beq_iff_eq] at hident
  rcases hident with hident | rfl
  · simp only [isBlank, Bool.or_eq_true, Bool.and_eq_true, decide_eq_true_eq, beq_iff_eq] at h
    simp [UInt32.le_iff_toNat_le, hval] at hident
    omega
  · cases h

theorem not_of_head?_append {p : Char → Bool} (hcs : ∀ c ∈ cs, ¬p c) (hmark : ¬p mark)
    (rest : List Char) : ∀ c ∈ (cs ++ mark :: rest).head?, ¬p c := by
  intro c hc
  cases cs with
  | nil => exact Option.mem_some.mp hc ▸ hmark
  | cons d cs => exact Option.mem_some.mp hc ▸ hcs d List.mem_cons_self

/-- A name ends before a mark, with or without blanks between the two. -/
theorem head_blank_append (hblanks : Blank blanks) (hmark : ¬isIdentChar mark)
    (rest : List Char) : ∀ c ∈ (blanks ++ mark :: rest).head?, ¬isIdentChar c :=
  not_of_head?_append (fun c hc => not_isIdentChar_of_isBlank (hblanks c hc)) hmark rest

theorem dropBlanks_append (hblanks : Blank blanks) (hc : ¬isBlank c) (rest : List Char) :
    dropBlanks (blanks ++ c :: rest) = c :: rest :=
  (dropBlanks_eq_cons_iff hc).mpr ⟨blanks, hblanks, rfl⟩

theorem some?_eq_some_iff : some? p cs = some (found, rest) ↔
    found ≠ [] ∧ (∀ c ∈ found, p c) ∧ (∀ c ∈ rest.head?, ¬p c) ∧ cs = found ++ rest := by
  rw [some?, Option.ite_none_left_eq_some, Option.some.injEq, Prod.mk.injEq, List.isEmpty_iff]
  constructor
  · rintro ⟨hne, rfl, rfl⟩
    refine ⟨hne, fun c hc => List.mem_takeWhile_imp hc, fun c hc => ?_,
      List.takeWhile_append_dropWhile.symm⟩
    have hnot := List.head?_dropWhile_not p cs
    rw [Option.mem_def.mp hc] at hnot
    simpa using hnot
  · rintro ⟨hne, hfound, hrest, rfl⟩
    rw [takeWhile_append_of_head hfound hrest, dropWhile_append_of_head hfound hrest]
    exact ⟨hne, rfl, rfl⟩

theorem name?_eq_some_iff : name? cs = some (word, rest) ↔
    IsName word ∧ (∀ c ∈ rest.head?, ¬isIdentChar c) ∧ cs = word ++ rest := by
  rw [name?, some?_eq_some_iff]
  exact ⟨fun ⟨hne, hchars, h⟩ => ⟨⟨hne, hchars⟩, h⟩, fun ⟨⟨hne, hchars⟩, h⟩ => ⟨hne, hchars, h⟩⟩

/-- Blanks before a name are dropped. -/
theorem dropBlanks_eq_name_append_iff (hword : IsName word) :
    dropBlanks cs = word ++ rest ↔ ∃ blanks, Blank blanks ∧ cs = blanks ++ (word ++ rest) := by
  obtain ⟨c, word, rfl⟩ := List.exists_cons_of_ne_nil hword.ne_nil
  have hc : ¬isBlank c := fun hblank =>
    not_isIdentChar_of_isBlank hblank (hword.chars c List.mem_cons_self)
  exact dropBlanks_eq_cons_iff hc

theorem next?_eq_some_iff (hc : ¬isBlank c) : next? (c :: word) cs = some rest ↔
    ∃ blanks, Blank blanks ∧ cs = blanks ++ (c :: word ++ rest) := by
  rw [next?, after?_eq_some_iff, List.cons_append, dropBlanks_eq_cons_iff hc]
  rfl

/-- A quotation ends at the next quotation mark. -/
theorem exists_after_quote_iff :
    (∃ rest', after? ['"'] (cs.dropWhile (· ≠ '"')) = some rest' ∧
      (cs.takeWhile (· ≠ '"'), rest') = (name, rest)) ↔
      '"' ∉ name ∧ cs = name ++ '"' :: rest := by
  simp only [after?_eq_some_iff, Prod.mk.injEq, List.singleton_append]
  constructor
  · rintro ⟨_, hdrop, rfl, rfl⟩
    refine ⟨fun hmem => by simpa using List.mem_takeWhile_imp hmem, ?_⟩
    rw [← hdrop, List.takeWhile_append_dropWhile]
  · rintro ⟨hname, rfl⟩
    have hchars := decide_ne_of_notMem hname
    rw [takeWhile_append_of_head hchars (by simp), dropWhile_append_of_head hchars (by simp)]
    exact ⟨rest, rfl, rfl, rfl⟩

theorem quoted?_eq_some_iff : quoted? cs = some (name, rest) ↔
    '"' ∉ name ∧ ∃ blanks, Blank blanks ∧ cs = blanks ++ '"' :: (name ++ '"' :: rest) := by
  simp only [quoted?, bind, Option.bind_eq_some_iff, pure, Option.some.injEq,
    next?_eq_some_iff (show ¬isBlank '"' by decide), exists_after_quote_iff]
  constructor
  · rintro ⟨_, ⟨blanks, hblanks, rfl⟩, hname, rfl⟩
    exact ⟨hname, blanks, hblanks, rfl⟩
  · rintro ⟨hname, blanks, hblanks, rfl⟩
    exact ⟨_, ⟨blanks, hblanks, rfl⟩, hname, rfl⟩

/-- A classification with its whole name, and what follows it. -/
def Classification (cs : List Char) (found : List Char × List Char) : Prop :=
  ∃ word, IsName word ∧ (∀ c ∈ found.2.head?, ¬isIdentChar c) ∧
    found.1 = "EClassification_".toList ++ word ∧
    cs = "EClassification::EClassification_".toList ++ (word ++ found.2)

theorem classification?_eq_some_iff {found : List Char × List Char} :
    classification? cs = some found ↔ Classification cs found := by
  simp only [classification?, bind, Option.bind_eq_some_iff, pure, Option.some.injEq,
    after?_eq_some_iff]
  constructor
  · rintro ⟨_, rfl, ⟨word, rest⟩, hname, rfl⟩
    obtain ⟨hword, hrest, rfl⟩ := name?_eq_some_iff.mp hname
    exact ⟨word, hword, hrest, rfl, rfl⟩
  · rintro ⟨word, hword, hrest, hname, rfl⟩
    exact ⟨_, rfl, (word, found.2), name?_eq_some_iff.mpr ⟨hword, hrest, rfl⟩,
      Prod.ext hname.symm rfl⟩

theorem classification?_dropBlanks_eq_some_iff {found : List Char × List Char} :
    classification? (dropBlanks cs) = some found ↔
      ∃ blanks cs', Blank blanks ∧ cs = blanks ++ cs' ∧ Classification cs' found := by
  rw [classification?_eq_some_iff]
  constructor
  · rintro ⟨word, hword, hrest, hname, hdrop⟩
    obtain ⟨blanks, hblanks, rfl⟩ := (dropBlanks_eq_cons_iff (by decide)).mp hdrop
    exact ⟨blanks, _, hblanks, rfl, word, hword, hrest, hname, rfl⟩
  · rintro ⟨blanks, _, hblanks, rfl, word, hword, hrest, hname, rfl⟩
    exact ⟨word, hword, hrest, hname, dropBlanks_append hblanks (by decide) _⟩

/-! ## Searches -/

/-- The relation holds of what follows the first place where it holds of anything. -/
def FirstMatch {α : Type} (R : List Char → α → Prop) (cs : List Char) (a : α) : Prop :=
  ∃ before after, FirstAt (fun cs => ∃ a, R cs a) cs before after ∧ R after a

/-- A search finds what stands at the first place where anything does. -/
theorem first?_eq_some_iff {α : Type} {scan : List Char → Option α} {R : List Char → α → Prop}
    (hscan : ∀ {cs a}, scan cs = some a ↔ R cs a) {a : α} :
    first? scan cs = some a ↔ FirstMatch R cs a := by
  induction cs with
  | nil =>
      rw [first?, hscan]
      constructor
      · intro h
        exact ⟨[], [], (firstAt_of_holds ⟨a, h⟩).mpr ⟨rfl, rfl⟩, h⟩
      · rintro ⟨before, after, hfirst, h⟩
        rwa [← (List.append_eq_nil_iff.mp hfirst.eq.symm).2]
  | cons c cs ih =>
      rw [first?]
      split
      next found hfound =>
        -- what stands here comes before anything further on
        have hholds : ∃ a, R (c :: cs) a := ⟨found, hscan.mp hfound⟩
        rw [← hfound, hscan]
        constructor
        · intro h
          exact ⟨[], c :: cs, (firstAt_of_holds hholds).mpr ⟨rfl, rfl⟩, h⟩
        · rintro ⟨before, after, hfirst, h⟩
          rwa [((firstAt_of_holds (P := fun cs => ∃ a, R cs a) hholds).mp hfirst).2] at h
      next hnone =>
        have hnot : ¬∃ a, R (c :: cs) a := by
          rintro ⟨a, h⟩
          rw [hscan.mpr h] at hnone
          cases hnone
        have hcons (before after : List Char) :
            FirstAt (fun cs => ∃ a, R cs a) (c :: cs) before after ↔
              ∃ before', before = c :: before' ∧ FirstAt (fun cs => ∃ a, R cs a) cs before' after :=
          firstAt_cons_of_not hnot
        simp only [ih, FirstMatch, hcons]
        constructor
        · rintro ⟨before, after, hfirst, h⟩
          exact ⟨c :: before, after, ⟨before, rfl, hfirst⟩, h⟩
        · rintro ⟨_, after, ⟨before, rfl, hfirst⟩, h⟩
          exact ⟨before, after, hfirst, h⟩

/-- Where a text goes on with a match, that is the first match or stands behind it. -/
theorem exists_firstAt {P : List Char → Prop} {after : List Char} (hafter : P after)
    (hcs : after <:+ cs) : ∃ before' after', FirstAt P cs before' after' ∧ after <:+ after' := by
  induction cs with
  | nil =>
      obtain rfl := List.suffix_nil.mp hcs
      exact ⟨[], [], (firstAt_of_holds hafter).mpr ⟨rfl, rfl⟩, List.suffix_rfl⟩
  | cons c cs ih =>
      by_cases hholds : P (c :: cs)
      · exact ⟨[], c :: cs, (firstAt_of_holds hholds).mpr ⟨rfl, rfl⟩, hcs⟩
      · rcases List.suffix_cons_iff.mp hcs with rfl | hcs
        · exact absurd hafter hholds
        · obtain ⟨before', after', hfirst, hsuffix⟩ := ih hcs
          exact ⟨c :: before', after', (firstAt_cons_of_not hholds).mpr ⟨before', rfl, hfirst⟩,
            hsuffix⟩

theorem FirstMatch.suffix {α : Type} {R : List Char → α → Prop} {a : α} (h : FirstMatch R cs a) :
    ∃ after, after <:+ cs ∧ R after a := by
  obtain ⟨before, after, hfirst, hafter⟩ := h
  exact ⟨after, ⟨before, hfirst.eq.symm⟩, hafter⟩

/-- There is a first match if there is any. -/
theorem exists_firstMatch_of_suffix {α : Type} {R : List Char → α → Prop} {after : List Char}
    {a : α} (hcs : after <:+ cs) (h : R after a) : ∃ a, FirstMatch R cs a := by
  obtain ⟨before', after', hfirst, -⟩ := exists_firstAt (P := fun cs => ∃ a, R cs a) ⟨a, h⟩ hcs
  obtain ⟨a', ha'⟩ := hfirst.holds
  exact ⟨a', before', after', hfirst, ha'⟩

/-- A search that goes on behind what it has found can stay with the first place, if it can go on
from there wherever it can from a later one. -/
theorem firstMatch_bind {α β : Type} {R : List Char → β → Prop} {next : β → α → Prop}
    (h : ∀ {cs cs' b b'}, R cs b → R cs' b' → cs' <:+ cs → (∃ a, next b' a) → ∃ a, next b a)
    {a : α} : FirstMatch (fun cs a => ∃ b, R cs b ∧ next b a) cs a ↔
      ∃ b, FirstMatch R cs b ∧ next b a := by
  constructor
  · rintro ⟨before, after, hfirst, b, hR, hnext⟩
    obtain ⟨before', after', hfirst', hsuffix⟩ :=
      exists_firstAt (P := fun cs => ∃ b, R cs b) ⟨b, hR⟩ ⟨before, hfirst.eq.symm⟩
    -- the search goes on from the first place too, so that is where it matches
    obtain ⟨b', hR'⟩ := hfirst'.holds
    obtain ⟨a', hnext'⟩ := h hR' hR hsuffix ⟨a, hnext⟩
    have hle := hfirst.first before' after' hfirst'.eq ⟨a', b', hR', hnext'⟩
    have hle' := hfirst'.first before after hfirst.eq ⟨b, hR⟩
    have heq : before' ++ after' = before ++ after := hfirst'.eq.symm.trans hfirst.eq
    obtain ⟨rfl, rfl⟩ := List.append_inj heq (Nat.le_antisymm hle' hle)
    exact ⟨b, ⟨before', after', hfirst', hR⟩, hnext⟩
  · rintro ⟨b, ⟨before, after, hfirst, hR⟩, hnext⟩
    refine ⟨before, after, ⟨hfirst.eq, ⟨a, b, hR, hnext⟩, ?_⟩, b, hR, hnext⟩
    rintro before' after' heq ⟨-, b', hR', -⟩
    exact hfirst.first before' after' heq ⟨b', hR'⟩

/-- A cut goes on behind the first such character. -/
theorem exists_cut?_eq_some_iff : (∃ before, cut? [c] cs = some (before, rest)) ↔
    FirstMatch (fun cs rest => cs = c :: rest) cs rest := by
  have hstarts : ([c] <+: ·) = fun cs => ∃ rest, cs = c :: rest := by
    funext cs
    exact propext ⟨fun ⟨rest, h⟩ => ⟨rest, h.symm⟩, fun ⟨rest, h⟩ => ⟨rest, h.symm⟩⟩
  simp only [cut?_eq_some_iff, hstarts]
  constructor
  · rintro ⟨before, hfirst⟩
    exact ⟨before, _, hfirst, rfl⟩
  · rintro ⟨before, _, hfirst, rfl⟩
    exact ⟨before, hfirst⟩

/-- What starts with a character lies behind what has no such character. -/
theorem suffix_of_suffix_append (h : c :: rest <:+ cs ++ found) (hc : c ∉ cs) :
    c :: rest <:+ found := by
  induction cs with
  | nil => exact h
  | cons d cs ih =>
      rw [List.mem_cons, not_or] at hc
      rcases List.suffix_cons_iff.mp h with heq | h
      · exact absurd (List.cons.inj heq).1 hc.1
      · exact ih h hc.2

end Lexicolor.Source
