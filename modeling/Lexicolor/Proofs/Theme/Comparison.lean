import Mathlib
import Lexicolor.Proofs.Clangd.Encoding
import Lexicolor.Proofs.Combination
import Lexicolor.Proofs.Theme.Entries
import Lexicolor.Theme.Comparison

/-!
# Scopes without a colour

The comparison tells, in ascending order, the highlighter's scopes that stand in
the manifest's section on semantic tokens, are no exceptions, and are listed by no
entry of the theme. In the manifest that is made from rules, these are scopes of
the rules.
-/

namespace Lexicolor

variable {scope : String} {rules : List Clangd.Rule}

/-! ## Parts of a manifest -/

namespace Json

variable {v : Json}

theorem mem_getD_asArray? {item : Json} :
    item ∈ v.asArray?.getD [] ↔ ∃ items, v = .array items ∧ item ∈ items := by
  cases v <;> simp [asArray?]

theorem mem_getD_bind_asArray? {found : Option Json} {item : Json} :
    item ∈ (found.bind asArray?).getD [] ↔ ∃ items, found = some (.array items) ∧ item ∈ items := by
  cases found with
  | none => simp
  | some v => simpa using mem_getD_asArray?

theorem mem_getD_bind_asObject? {found : Option Json} {member : String × Json} :
    member ∈ (found.bind asObject?).getD [] ↔
      ∃ members, found = some (.object members) ∧ member ∈ members := by
  cases found with
  | none => simp
  | some v => cases v <;> simp [asObject?]

end Json

/-! ## Scopes of selectors -/

namespace Clangd

/-- Rules that share a selector leave their scopes with it. -/
theorem mem_foldl_addScope (rules : List Rule) (old : Option (List String)) :
    scope ∈ (rules.foldl (fun old r => some (addScope r old)) old).getD [] ↔
      scope ∈ old.getD [] ∨ ∃ r ∈ rules, scope = Scope.dotted r.scope := by
  induction rules generalizing old with
  | nil => simp
  | cons r rules ih =>
      have hadd : scope ∈ addScope r old ↔ scope ∈ old.getD [] ∨ scope = Scope.dotted r.scope := by
        unfold addScope
        split
        next => simp
        next scopes =>
          split
          next hmem => grind
          next => simp
      rw [List.foldl_cons, ih, Option.getD_some, hadd, or_assoc, List.exists_mem_cons_iff]

/-- The selectors hold the scopes of the rules. -/
theorem exists_mem_selectors_iff (rules : List Rule) :
    (∃ entry ∈ (selectors rules).entries, scope ∈ entry.2) ↔
      ∃ r ∈ rules, scope = Scope.dotted r.scope := by
  have hget (key : String) : scope ∈ ((selectors rules).get? key).getD [] ↔
      ∃ r ∈ rules, selector r.modifiers = key ∧ scope = Scope.dotted r.scope := by
    rw [selectors_eq,
      get_foldl_alter Table.get?_alter (fun r : Rule => selector r.modifiers) addScope,
      mem_foldl_addScope]
    simp [and_assoc]
  constructor
  · rintro ⟨⟨key, scopes⟩, hentry, hscope⟩
    have hmem : scope ∈ ((selectors rules).get? key).getD [] := by
      rwa [Table.get?_eq_some_iff.mpr hentry]
    obtain ⟨r, hr, -, heq⟩ := (hget key).mp hmem
    exact ⟨r, hr, heq⟩
  · rintro ⟨r, hr, heq⟩
    have hmem := (hget (selector r.modifiers)).mpr ⟨r, hr, rfl, heq⟩
    cases hfound : (selectors rules).get? (selector r.modifiers) with
    | none => simp [hfound] at hmem
    | some scopes =>
        rw [hfound] at hmem
        exact ⟨_, Table.get?_eq_some_iff.mp hfound, hmem⟩

end Clangd

namespace Theme

open Json

variable {theme package language : Json}

/-! ## Scopes of a theme -/

/-- Some entry of the token colours lists the scope. -/
def Colors (theme : Json) (scope : String) : Prop :=
  ∃ rules, theme.get? "tokenColors" = some (.array rules) ∧ ∃ rule ∈ rules, Lists rule scope

theorem mem_themeScopes_iff :
    scope ∈ themeScopes theme ↔ Colors theme scope ∧ isOwnScope scope := by
  have hrule : (∃ rule ∈ tokenColors theme, Lists rule scope) ↔ Colors theme scope := by
    simp only [tokenColors, mem_getD_bind_asArray?, Colors]
    grind
  rw [themeScopes, mem_ascending, List.mem_filter, List.mem_flatMap, ← hrule]
  simp only [mem_ruleScopes_iff]

/-! ## Scopes of a package -/

/-- Some array directly in the section's scopes holds the scope. -/
def HasScope (language : Json) (scope : String) : Prop :=
  ∃ members, language.get? "scopes" = some (.object members) ∧
    ∃ key items, (key, .array items) ∈ members ∧ .string scope ∈ items

/-- Some section of the manifest on semantic tokens holds the scope. -/
def Uses (package : Json) (scope : String) : Prop :=
  ∃ contributes, package.get? "contributes" = some contributes ∧
    ∃ languages, contributes.get? "semanticTokenScopes" = some (.array languages) ∧
      ∃ language ∈ languages, HasScope language scope

theorem mem_sectionScopes_iff :
    .string scope ∈ sectionScopes language ↔ HasScope language scope := by
  simp only [sectionScopes, List.mem_flatMap, mem_getD_bind_asObject?, mem_getD_asArray?, HasScope,
    Prod.exists]
  grind

theorem mem_packageScopes_iff :
    scope ∈ packageScopes package ↔ Uses package scope ∧ isOwnScope scope := by
  rw [packageScopes, mem_ascending, List.mem_filter, List.mem_filterMap]
  simp only [asString?_eq_some_iff, exists_eq_right, List.mem_flatMap, mem_sectionScopes_iff,
    mem_getD_bind_asArray?, Option.bind_eq_some_iff, Uses]
  grind

/-- The manifest that is made from rules uses the scopes of the rules. -/
theorem uses_manifest_iff (h : package.get? "contributes" = some (Clangd.manifest rules)) :
    Uses package scope ↔ ∃ r ∈ rules, scope = Scope.dotted r.scope := by
  let members := (Clangd.selectors rules).entries.map fun entry =>
    (entry.1, stringArray entry.2)
  let language : Json := .object [("language", .string "cpp"), ("scopes", .object members)]
  have hlanguages : (Clangd.manifest rules).get? "semanticTokenScopes" = some (.array [language]) :=
    rfl
  have hmembers : language.get? "scopes" = some (.object members) := rfl
  have huses : Uses package scope ↔
      ∃ key items, (key, .array items) ∈ members ∧ .string scope ∈ items := by
    simp [Uses, h, hlanguages, HasScope, hmembers]
  rw [huses, ← Clangd.exists_mem_selectors_iff]
  simp [members, stringArray]

/-! ## The comparison -/

/-- The scope should have a colour, and the theme gives it none. -/
structure LeavesOut (theme : Json) (scope : String) : Prop where
  own : "malterlib.".toList <+: scope.toList
  notMem : scope ∉ exceptionScopes
  plain : ¬Colors theme scope

theorem mem_missing_iff : scope ∈ (compare theme package).missing ↔
    Uses package scope ∧ LeavesOut theme scope := by
  simp only [compare, List.mem_filter, mem_packageScopes_iff, mem_themeScopes_iff,
    Bool.and_eq_true, decide_eq_true_eq, not_and, isOwnScope, List.isPrefixOf_iff_prefix]
  constructor
  · rintro ⟨⟨huses, hown⟩, hplain, hexception⟩
    exact ⟨huses, hown, hexception, fun hcolors => hplain hcolors hown⟩
  · rintro ⟨huses, hown, hexception, hplain⟩
    exact ⟨⟨huses, hown⟩, fun hcolors => absurd hcolors hplain, hexception⟩

theorem pairwise_missing (theme package : Json) :
    (compare theme package).missing.Pairwise (· < ·) :=
  (pairwise_ascending _).sublist List.filter_sublist

/-- Whatever the two values are, the comparison tells in ascending order which scopes of the package
the theme leaves out. For the manifest made from rules these are scopes of the rules. -/
theorem compare_tells_leftOut (theme package : Json) :
    (compare theme package).missing.Pairwise (· < ·) ∧
    (∀ scope, scope ∈ (compare theme package).missing ↔
      Uses package scope ∧ LeavesOut theme scope) ∧
    ∀ rules, package.get? "contributes" = some (Clangd.manifest rules) →
      ∀ scope, scope ∈ (compare theme package).missing ↔
        (∃ r ∈ rules, scope = Scope.dotted r.scope) ∧ LeavesOut theme scope := by
  refine ⟨pairwise_missing theme package, fun scope => mem_missing_iff, fun rules h scope => ?_⟩
  rw [mem_missing_iff, uses_manifest_iff h]

/-- A keyword and a prefix. -/
def classTable : ScopeTable :=
  ⟨⟨[("int", "malterlib-type")], by decide⟩, ⟨[("C", ⟨"malterlib-class", false⟩)], by decide⟩, []⟩

def classRule : Clangd.Rule := ⟨"^C[A-Z][A-Za-z0-9_]*$", ["Custom1"], "malterlib-class"⟩

def classRules : List Clangd.Rule := [⟨"^int$", ["Custom0"], "malterlib-type"⟩, classRule]

/-- A theme that colours the scope of the keyword. -/
def typeTheme : Json :=
  .object [("tokenColors", .array [.null, .object [("scope", .string "malterlib.type")]])]

def classPackage : Json := .object [("contributes", Clangd.manifest classRules)]

theorem compare_tells_leftOut_class : Clangd.rules classTable = .ok classRules ∧
    classPackage.get? "contributes" = some (Clangd.manifest classRules) ∧
    "malterlib.class" ∈ (compare typeTheme classPackage).missing := by
  have hplain : ¬Colors typeTheme "malterlib.class" := by
    rw [Colors]
    simp [typeTheme, get?, lookupEntry, Lists]
  have hmissing := (compare_tells_leftOut typeTheme classPackage).2.2 classRules rfl
  refine ⟨by cbv, rfl, (hmissing _).mpr ⟨⟨classRule, by simp [classRules], by cbv⟩, ?_, ?_, hplain⟩⟩
  · decide
  · decide

end Theme

end Lexicolor
