import Mathlib
import Lexicolor.Proofs.Source.Scan
import Lexicolor.Source.Keywords

/-!
# The example and the keyword of a line

What a line names is given by the first call in it, or by the first initialiser
with a remark. A search that may have to go on behind its first find, because no
remark follows, is a search that stays with the first find.
-/

namespace Lexicolor.Source

open Text

variable {cs rest line name : List Char} {mark : Char} {naming : Naming}

/-! ## Calls -/

/-- A keyword in quotes and its classification are the first arguments of a call, with a mark behind
them. -/
inductive Arguments (mark : Char) : List Char → Naming → Prop
  | intro {keyword word : List Char} (hne : keyword ≠ []) (hquote : '"' ∉ keyword)
      (hword : IsName word) (gap : Fin 4 → List Char) (hgap : ∀ i, Blank (gap i))
      (rest : List Char) :
      Arguments mark
        (gap 0 ++ '"' :: (keyword ++ '"' :: (gap 1 ++ ',' :: (gap 2 ++
          ("EClassification::EClassification_".toList ++ (word ++ (gap 3 ++ mark :: rest)))))))
        (keyword, "EClassification_".toList ++ word)

/-- A call that names an example. -/
def ExampleCall (cs : List Char) (naming : Naming) : Prop :=
  ∃ blanks args, Blank blanks ∧ cs = "ignore".toList ++ (blanks ++ '(' :: args) ∧
    Arguments ',' args naming

/-- The heads of the calls that register keywords. -/
def callHeads : List (List Char) :=
  [[], ['_']].flatMap fun joint => familyMarks.map fun family =>
    "f_AddDefaultKeyword".toList ++ (joint ++ family)

/-- A call that registers a keyword. -/
def Registration (cs : List Char) (naming : Naming) : Prop :=
  ∃ head ∈ callHeads, ∃ args, cs = head ++ args ∧ Arguments ')' args naming

theorem arguments_iff (hblank : ¬isBlank mark) (hident : ¬isIdentChar mark) :
    (∃ found, naming? cs = some found ∧ ∃ rest, next? [mark] found.2 = some rest ∧
      found.1 = naming) ↔ Arguments mark cs naming := by
  simp only [naming?, bind, Option.bind_eq_some_iff, pure, Option.some.injEq,
    next?_eq_some_iff hblank, next?_eq_some_iff (show ¬isBlank ',' by decide),
    classification?_dropBlanks_eq_some_iff]
  constructor
  · rintro ⟨_, ⟨⟨keyword, _⟩, hquoted, _, hguard, _, ⟨blanks₁, hblanks₁, rfl⟩, ⟨_, _⟩,
      ⟨blanks₂, _, hblanks₂, rfl, word, hword, -, rfl, rfl⟩, rfl⟩, rest,
      ⟨blanks₃, hblanks₃, rfl⟩, rfl⟩
    obtain ⟨hquote, blanks₀, hblanks₀, rfl⟩ := quoted?_eq_some_iff.mp hquoted
    have hgap : ∀ i, Blank (![blanks₀, blanks₁, blanks₂, blanks₃] i) := by
      simp [Fin.forall_fin_succ, hblanks₀, hblanks₁, hblanks₂, hblanks₃]
    exact .intro (by simpa using hguard) hquote hword _ hgap rest
  · rintro ⟨hne, hquote, hword, gap, hgap, rest⟩
    refine ⟨_, ⟨_, quoted?_eq_some_iff.mpr ⟨hquote, gap 0, hgap 0, rfl⟩, (), by simpa using hne, _,
      ⟨gap 1, hgap 1, rfl⟩, (_, gap 3 ++ mark :: rest), ⟨gap 2, _, hgap 2, rfl, _, hword,
        head_blank_append (hgap 3) hident rest, rfl, rfl⟩, rfl⟩, rest, ⟨gap 3, hgap 3, rfl⟩, rfl⟩

theorem exampleCall?_eq_some_iff : exampleCall? cs = some naming ↔ ExampleCall cs naming := by
  simp only [exampleCall?, bind, Option.bind_eq_some_iff, pure, Option.some.injEq,
    after?_eq_some_iff, next?_eq_some_iff (show ¬isBlank '(' by decide)]
  constructor
  · rintro ⟨_, rfl, args, ⟨blanks, hblanks, rfl⟩, hargs⟩
    exact ⟨blanks, args, hblanks, rfl, (arguments_iff (by decide) (by decide)).mp hargs⟩
  · rintro ⟨blanks, args, hblanks, rfl, hargs⟩
    exact ⟨_, rfl, args, ⟨blanks, hblanks, rfl⟩, (arguments_iff (by decide) (by decide)).mpr hargs⟩

theorem callHead?_eq_some_iff :
    callHead? cs = some rest ↔ ∃ head ∈ callHeads, cs = head ++ rest := by
  constructor
  · intro h
    simp only [callHead?, bind, Option.bind_eq_some_iff, after?_eq_some_iff] at h
    obtain ⟨more, rfl, h⟩ := h
    obtain ⟨family, hfamily, hrest⟩ := List.exists_of_findSome?_eq_some h
    rw [after?_eq_some_iff] at hrest
    have hjoint : ∃ joint ∈ [[], ['_']], more = joint ++ (family ++ rest) := by
      cases hafter : after? ['_'] more with
      | none => exact ⟨[], by simp, by rwa [hafter] at hrest⟩
      | some behind =>
          rw [hafter, Option.getD_some] at hrest
          exact ⟨['_'], by simp, by rw [after?_eq_some_iff.mp hafter, hrest]⟩
    obtain ⟨joint, hjoint, rfl⟩ := hjoint
    refine ⟨"f_AddDefaultKeyword".toList ++ (joint ++ family), ?_, by simp⟩
    exact List.mem_flatMap.mpr ⟨joint, hjoint, List.mem_map.mpr ⟨family, hfamily, rfl⟩⟩
  · rintro ⟨head, hhead, rfl⟩
    have hheads : ∀ head ∈ callHeads, callHead? (head ++ rest) = some rest := by
      simp [callHeads, callHead?, familyMarks, after?]
    exact hheads head hhead

theorem registration?_eq_some_iff : registration? cs = some naming ↔ Registration cs naming := by
  simp only [registration?, bind, Option.bind_eq_some_iff, pure, Option.some.injEq,
    callHead?_eq_some_iff]
  constructor
  · rintro ⟨args, ⟨head, hhead, rfl⟩, hargs⟩
    exact ⟨head, hhead, args, rfl, (arguments_iff (by decide) (by decide)).mp hargs⟩
  · rintro ⟨head, hhead, args, rfl, hargs⟩
    exact ⟨args, ⟨head, hhead, rfl⟩, (arguments_iff (by decide) (by decide)).mpr hargs⟩

/-! ## Remarks -/

/-- A remark on an example. -/
def Remark (cs name : List Char) : Prop :=
  IsName name ∧ ∃ left right rest, Blank left ∧ Blank right ∧
    cs = "ignore(".toList ++ (left ++ (name ++ (right ++ ')' :: rest)))

/-- A closing brace with a remark somewhere behind it. -/
def Closed (cs name : List Char) : Prop :=
  ∃ rest, cs = '\x7d' :: rest ∧ FirstMatch Remark rest name

/-- A classification, with a closing brace and a remark somewhere behind it. -/
def Classified (cs : List Char) (naming : Naming) : Prop :=
  ∃ found, Classification cs found ∧ naming.2 = found.1 ∧ FirstMatch Closed found.2 naming.1

/-- An opening brace with all these somewhere behind it. -/
def Remarked (cs : List Char) (naming : Naming) : Prop :=
  ∃ rest, cs = '\x7b' :: rest ∧ FirstMatch Classified rest naming

theorem remark?_eq_some_iff : remark? cs = some name ↔ Remark cs name := by
  simp only [remark?, bind, Option.bind_eq_some_iff, pure, Option.some.injEq, after?_eq_some_iff,
    next?_eq_some_iff (show ¬isBlank ')' by decide)]
  constructor
  · rintro ⟨_, rfl, ⟨_, _⟩, hscan, rest, ⟨right, hright, rfl⟩, rfl⟩
    obtain ⟨hname, -, hdrop⟩ := name?_eq_some_iff.mp hscan
    obtain ⟨left, hleft, rfl⟩ := (dropBlanks_eq_name_append_iff hname).mp hdrop
    exact ⟨hname, left, right, rest, hleft, hright, rfl⟩
  · rintro ⟨hname, left, right, rest, hleft, hright, rfl⟩
    have hscan : name? (dropBlanks (left ++ (name ++ (right ++ ')' :: rest)))) =
        some (name, right ++ ')' :: rest) :=
      name?_eq_some_iff.mpr ⟨hname, head_blank_append hright (by decide) rest,
        (dropBlanks_eq_name_append_iff hname).mpr ⟨left, hleft, rfl⟩⟩
    exact ⟨_, rfl, _, hscan, rest, ⟨right, hright, rfl⟩, rfl⟩

/-- A brace that stands further on has less behind it. -/
theorem suffix_of_cons_suffix {c d : Char} (h : c :: rest <:+ d :: cs) : rest <:+ cs := by
  rcases List.suffix_cons_iff.mp h with heq | h
  · rw [(List.cons.inj heq).2]
  · exact (List.suffix_cons c rest).trans h

/-- Whether a search behind a character goes on does not depend on which of them it starts at. -/
theorem firstMatch_behind_iff {α : Type} {R : List Char → α → Prop} {c : Char} {a : α} :
    FirstMatch (fun cs a => ∃ rest, cs = c :: rest ∧ FirstMatch R rest a) cs a ↔
      ∃ rest, FirstMatch (fun cs rest => cs = c :: rest) cs rest ∧ FirstMatch R rest a := by
  refine firstMatch_bind fun {_ _ rest rest'} heq heq' hsuffix hnext => ?_
  subst heq heq'
  obtain ⟨a, hnext⟩ := hnext
  obtain ⟨after, hafter, ha⟩ := hnext.suffix
  exact exists_firstMatch_of_suffix (hafter.trans (suffix_of_cons_suffix hsuffix)) ha

theorem firstMatch_classified_iff : FirstMatch Classified cs naming ↔
    ∃ found, FirstMatch Classification cs found ∧ naming.2 = found.1 ∧
      FirstMatch Closed found.2 naming.1 := by
  refine firstMatch_bind fun {_ _ found found'} hclass hclass' hsuffix hnext => ?_
  obtain ⟨word, hword, -, -, rfl⟩ := hclass
  obtain ⟨word', -, -, -, rfl⟩ := hclass'
  obtain ⟨other, -, hclosed⟩ := hnext
  obtain ⟨_, hbehind, after, rfl, hremark⟩ := hclosed.suffix
  -- the name before the later classification has no brace in it, nor has the earlier one
  have hbrace : '\x7d' ∉ "EClassification::EClassification_".toList ++ word := by
    rw [List.mem_append, not_or]
    exact ⟨by simp, hword.notMem (by decide)⟩
  have hlater : '\x7d' :: after <:+
      "EClassification::EClassification_".toList ++ word ++ found.2 := by
    rw [List.append_assoc]
    exact (hbehind.trans ((List.suffix_append _ _).trans (List.suffix_append _ _))).trans hsuffix
  have hafter := suffix_of_suffix_append hlater hbrace
  obtain ⟨name, hname⟩ : ∃ name, FirstMatch Closed found.2 name :=
    exists_firstMatch_of_suffix hafter ⟨after, rfl, hremark⟩
  exact ⟨(name, found.1), rfl, hname⟩

theorem remarkedExample?_eq_some_iff :
    remarkedExample? line = some naming ↔ FirstMatch Remarked line naming := by
  have hremarked : FirstMatch Remarked line naming ↔
      ∃ rest, FirstMatch (fun cs rest => cs = '\x7b' :: rest) line rest ∧
        FirstMatch Classified rest naming :=
    firstMatch_behind_iff
  have hclosed (cs name : List Char) : FirstMatch Closed cs name ↔ ∃ rest,
      FirstMatch (fun cs rest => cs = '\x7d' :: rest) cs rest ∧ FirstMatch Remark rest name :=
    firstMatch_behind_iff
  simp only [remarkedExample?, bind, Option.bind_eq_some_iff, pure, Option.some.injEq, hremarked,
    firstMatch_classified_iff, hclosed, ← exists_cut?_eq_some_iff,
    first?_eq_some_iff classification?_eq_some_iff, first?_eq_some_iff remark?_eq_some_iff]
  constructor
  · rintro ⟨⟨before, rest⟩, hopen, found, hfound, ⟨before', rest'⟩, hclose, name, hname, rfl⟩
    exact ⟨rest, ⟨before, hopen⟩, found, hfound, rfl, rest', ⟨before', hclose⟩, hname⟩
  · rintro ⟨rest, ⟨before, hopen⟩, found, hfound, hcls, rest', ⟨before', hclose⟩, hname⟩
    exact ⟨(before, rest), hopen, found, hfound, (before', rest'), hclose, _, hname,
      Prod.ext rfl hcls.symm⟩

/-! ## Lines -/

/-- The line names an example: in its first call that does or, failing that, in its first
initialiser with a remark. -/
def Exemplifies (line : List Char) (naming : Naming) : Prop :=
  FirstMatch ExampleCall line naming ∨
    (∀ other, ¬FirstMatch ExampleCall line other) ∧ FirstMatch Remarked line naming

/-- The line registers a keyword, in its first call that does, and none for scripts. -/
def Registers (line : List Char) (naming : Naming) : Prop :=
  ¬"f_AddDefaultKeyword_JS(".toList <:+: line ∧ FirstMatch Registration line naming

theorem exampleOf?_eq_some_iff : exampleOf? line = some naming ↔ Exemplifies line naming := by
  rw [exampleOf?, Option.or_eq_some_iff, Option.eq_none_iff_forall_ne_some,
    remarkedExample?_eq_some_iff]
  simp only [ne_eq, first?_eq_some_iff exampleCall?_eq_some_iff]
  exact Iff.rfl

theorem keywordOf?_eq_some_iff : keywordOf? line = some naming ↔ Registers line naming := by
  rw [keywordOf?, Option.ite_none_left_eq_some, contains_iff,
    first?_eq_some_iff registration?_eq_some_iff]
  exact Iff.rfl

end Lexicolor.Source
