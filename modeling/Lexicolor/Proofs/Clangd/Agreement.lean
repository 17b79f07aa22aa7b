import Mathlib
import Lexicolor.Proofs.Classification
import Lexicolor.Proofs.Clangd.FirstRule

/-!
# Rules and the classifier

The first rule that applies to an identifier decides its scope. A prefix rule
stands where the first pattern of its scope stands, so it may come before the
rule for the longest prefix; where it does, rules and classifier disagree.
-/

namespace Lexicolor.Clangd

open Computability Pattern

variable {table : ScopeTable} {scope : String} {word : String} {found : List Rule}

/-! ## Fitting prefixes -/

/-- A capital follows the head. -/
theorem fitsPlain_of_mem {head : List Char} {L : Language Char}
    (h : word.toList ∈ {head} * (anyOf Char.isUpper * L)) :
    Identifier.fitsPlain head word.toList := by
  obtain ⟨_, hrest, hword⟩ := mem_singleton_mul.mp h
  obtain ⟨c, rest, hc, -, rfl⟩ := mem_anyOf_mul.mp hrest
  exact Identifier.fitsPlain_iff.mpr ⟨c, rest, by simp [Identifier.isCapital, hc], hword⟩

/-- A prefix that offers a scope fits. -/
theorem Offers.fits {name : String} {entry : PrefixScope}
    (h : Offers name entry scope word.toList) :
    (if entry.isVariable then Identifier.fitsVariable else Identifier.fitsPlain) name.toList
      word.toList = true := by
  have hplain (hfits : Identifier.fitsPlain name.toList word.toList) :
      (if entry.isVariable then Identifier.fitsVariable else Identifier.fitsPlain) name.toList
        word.toList = true := by
    split
    · exact Identifier.fitsVariable_iff.mpr (.inl hfits)
    · exact hfits
  cases h with
  | ordinary _ _ hword =>
      cases hkind : entry.isVariable with
      | false =>
          rw [hkind, conceptWords, if_neg Bool.false_ne_true, one_mul] at hword
          exact fitsPlain_of_mem hword
      | true =>
          rw [hkind, conceptWords, if_pos rfl, add_mul, one_mul, mul_add, Language.mem_add] at hword
          refine Identifier.fitsVariable_iff.mpr (hword.imp fitsPlain_of_mem fun hword => ?_)
          -- between the prefix and the capital stands a concept letter
          obtain ⟨_, hrest, hword⟩ := mem_singleton_mul.mp hword
          obtain ⟨k, _, hk, hcapital, rfl⟩ := mem_anyOf_mul.mp hrest
          obtain ⟨c, rest, hc, -, rfl⟩ := mem_anyOf_mul.mp hcapital
          exact ⟨k, c, rest, hk, by simp [Identifier.isCapital, hc], hword⟩
  | enumerator hname hword =>
      subst hname
      rw [capitalized, mul_assoc] at hword
      exact hplain (fitsPlain_of_mem hword)
  | enumeration hname hword =>
      subst hname
      exact hplain (fitsPlain_of_mem hword)
  | reference hname hword =>
      subst hname
      rw [capitalized, mul_assoc] at hword
      exact hplain (fitsPlain_of_mem hword)
  | foundation hname hword =>
      subst hname
      exact hplain (fitsPlain_of_mem hword)

theorem Admits.exists_fits (h : Admits table scope word.toList) :
    ∃ head entry, table.Fits word head entry := by
  obtain ⟨name, entry, hget, hoffers⟩ := h
  exact ⟨name, entry, hget, hoffers.fits⟩

/-- No prefix that fits is longer. -/
structure Owner (table : ScopeTable) (word head : String) (entry : PrefixScope) : Prop where
  fits : table.Fits word head entry
  longest : ∀ other entry', table.Fits word other entry' → other.length ≤ head.length

theorem Owner.unique {head head' : String} {entry entry' : PrefixScope}
    (h : Owner table word head entry) (h' : Owner table word head' entry') :
    head = head' ∧ entry = entry' :=
  h.fits.eq_of_length h'.fits
    (Nat.le_antisymm (h'.longest head entry h.fits) (h.longest head' entry' h'.fits))

/-- An identifier that is no keyword and that some prefix fits has an owner. -/
theorem exists_owner {head : String} {entry : PrefixScope}
    (hnone : table.keywords.get? word = none) (hfits : table.Fits word head entry) :
    ∃ head entry, Owner table word head entry := by
  have hdecides := table.decides_classify word
  generalize table.classify word = result at hdecides
  cases hdecides with
  | keyword hkeyword =>
      rw [hnone] at hkeyword
      cases hkeyword
  | unknown _ hno => exact absurd hfits (hno head entry)
  | longest _ hfits hmax => exact ⟨_, _, hfits, hmax⟩

/-- The scope of the longest prefix is admitted, and no other admitted scope has its first pattern
before. -/
structure Leads (table : ScopeTable) (word head : String) (entry : PrefixScope) : Prop where
  admits : Admits table (entry.scopeOf head word) word.toList
  place_le : ∀ scope, Admits table scope word.toList →
    place table (entry.scopeOf head word) ≤ place table scope

/-- The rules agree with the classifier as far as owners lead. -/
theorem firstScope_eq_classify_iff_leads (h : rules table = .ok found)
    (hnamed : ∀ keyword scope, table.keywords.get? keyword = some scope → scope ≠ "") :
    firstScope found word = table.classify word ↔ (table.keywords.get? word = none →
      ∀ head entry, Owner table word head entry → Leads table word head entry) := by
  have hnone (hlisted : table.Unlisted word) : table.keywords.get? word = none := by
    rw [Option.eq_none_iff_forall_ne_some]
    intro scope hscope
    exact hnamed word scope hscope (hlisted scope hscope)
  have hdecides := table.decides_classify word
  generalize table.classify word = result at hdecides ⊢
  -- only where a prefix decides can the rules and the classifier differ
  cases hdecides with
  | keyword hkeyword =>
      refine iff_of_true ((firstScope_eq_some_iff h).mpr (.inl hkeyword)) fun hget => ?_
      rw [hkeyword] at hget
      cases hget
  | unknown hlisted hno =>
      refine iff_of_true ?_ fun _ head entry howner => absurd howner.fits (hno head entry)
      rw [Option.eq_none_iff_forall_ne_some]
      intro scope hfirst
      rcases (firstScope_eq_some_iff h).mp hfirst with hkeyword | ⟨-, hadmits, -⟩
      · exact hnamed word scope hkeyword (hlisted scope hkeyword)
      · obtain ⟨head, entry, hfits⟩ := hadmits.exists_fits
        exact hno head entry hfits
  | longest hlisted hfits hmax =>
      rw [firstScope_eq_some_iff h, hnone hlisted]
      constructor
      · rintro (hkeyword | ⟨-, hadmits, hplace⟩) - head entry howner
        · cases hkeyword
        · obtain ⟨rfl, rfl⟩ := howner.unique ⟨hfits, hmax⟩
          exact ⟨hadmits, hplace⟩
      · intro hleads
        have hfirst := hleads rfl _ _ ⟨hfits, hmax⟩
        exact .inr ⟨rfl, hfirst.admits, hfirst.place_le⟩

/-- The rules agree with the classifier on keywords and where no prefix fits. Elsewhere they agree
exactly if some pattern offers the scope of the longest prefix and no other scope that a pattern
offers has its first pattern before. -/
theorem firstScope_eq_classify_iff (h : rules table = .ok found)
    (hnamed : ∀ keyword scope, table.keywords.get? keyword = some scope → scope ≠ "")
    (word : String) : firstScope found word = table.classify word ↔
      (∃ scope, table.keywords.get? word = some scope) ∨
      (∀ head entry, ¬table.Fits word head entry) ∨
      ∃ head entry, Owner table word head entry ∧
        Admits table (entry.scopeOf head word) word.toList ∧
        ∀ scope, Admits table scope word.toList →
          place table (entry.scopeOf head word) ≤ place table scope := by
  rw [firstScope_eq_classify_iff_leads h hnamed]
  constructor
  · intro hleads
    by_cases hkeyword : ∃ scope, table.keywords.get? word = some scope
    · exact .inl hkeyword
    have hnone := Option.eq_none_iff_forall_ne_some.mpr (not_exists.mp hkeyword)
    by_cases hfits : ∃ head entry, table.Fits word head entry
    · obtain ⟨head, entry, hfits⟩ := hfits
      obtain ⟨head, entry, howner⟩ := exists_owner hnone hfits
      have hfirst := hleads hnone head entry howner
      exact .inr (.inr ⟨head, entry, howner, hfirst.admits, hfirst.place_le⟩)
    · simp only [not_exists] at hfits
      exact .inr (.inl hfits)
  · intro hcase hnone head' entry' howner'
    rcases hcase with ⟨scope, hkeyword⟩ | hno | ⟨head, entry, howner, hadmits, hplace⟩
    · rw [hnone] at hkeyword
      cases hkeyword
    · exact absurd howner'.fits (hno head' entry')
    · obtain ⟨rfl, rfl⟩ := howner.unique howner'
      exact ⟨hadmits, hplace⟩

/-- The longest and the shortest prefix have one scope, and the one between them has another. -/
def templates : ScopeTable :=
  ⟨.empty, ⟨[("T", ⟨"malterlib-template", false⟩), ("TI", ⟨"malterlib-interface", false⟩),
    ("TIC", ⟨"malterlib-template", false⟩)], by decide⟩, []⟩

theorem exists_rules_templates : ∃ found, rules templates = .ok found :=
  ⟨_, assignModifiers_of_le (by cbv)⟩

theorem named_templates (keyword scope : String)
    (h : templates.keywords.get? keyword = some scope) : scope ≠ "" := by
  cases h

theorem templates_agree_iff : ∃ found, rules templates = .ok found ∧
    (firstScope found "TIStream" = templates.classify "TIStream" ↔
      (∃ scope, templates.keywords.get? "TIStream" = some scope) ∨
      (∀ head entry, ¬templates.Fits "TIStream" head entry) ∨
      ∃ head entry, Owner templates "TIStream" head entry ∧
        Admits templates (entry.scopeOf head "TIStream") "TIStream".toList ∧
        ∀ scope, Admits templates scope "TIStream".toList →
          place templates (entry.scopeOf head "TIStream") ≤ place templates scope) := by
  obtain ⟨found, hfound⟩ := exists_rules_templates
  exact ⟨found, hfound, firstScope_eq_classify_iff hfound named_templates "TIStream"⟩

/-- The prefix `TI` is longer than `T`, but the rule that `T` shares with `TIC` comes first. -/
theorem not_forall_firstScope_eq_classify :
    ¬∀ (table : ScopeTable) (found : List Rule) (word : String),
    (∀ keyword scope, table.keywords.get? keyword = some scope → scope ≠ "") →
    (∀ name entry, table.prefixes.get? name = some entry → entry.scope ≠ "") →
    rules table = .ok found → word ≠ "" → (∀ c ∈ word.toList, c.isAlpha ∨ c = '_') →
    firstScope found word = table.classify word := by
  intro h
  obtain ⟨found, hfound⟩ := exists_rules_templates
  have hprefixes : ∀ entry ∈ templates.prefixes.entries, entry.2.scope ≠ "" := by decide
  have hletters : "TIStream".toList.all Char.isAlpha := rfl
  have hagree := h templates found "TIStream" named_templates
    (fun name entry hget => hprefixes _ (Table.get?_eq_some_iff.mp hget)) hfound (by decide)
    (fun c hc => .inl (List.all_eq_true.mp hletters c hc))
  have hclassify : templates.classify "TIStream" = some "malterlib-interface" := by cbv
  -- the prefix `T` offers its scope, and no pattern has an earlier place than that scope
  have hadmits : Admits templates "malterlib-template" "TIStream".toList := by
    have hrest : "Stream".toList ∈ (anyOf Text.isIdentChar)∗ :=
      mem_kstar_anyOf.mpr (List.all_eq_true.mp rfl)
    have hcapitalized : "IStream".toList ∈ capitalized :=
      mem_anyOf_mul.mpr ⟨'I', "Stream".toList, rfl, hrest, rfl⟩
    refine ⟨"T", ⟨"malterlib-template", false⟩, rfl, .ordinary (by decide) (by decide) ?_⟩
    rw [conceptWords, if_neg Bool.false_ne_true, one_mul]
    exact mem_singleton_mul.mpr ⟨_, hcapitalized, rfl⟩
  have hplace : place templates "malterlib-template" = 0 := by cbv
  have hfirst : firstDraft (prefixDrafts templates) "TIStream".toList = some "malterlib-template" :=
    firstDraft_prefixDrafts.mpr ⟨hadmits, fun other _ => hplace ▸ Nat.zero_le _⟩
  have hkeyword : templates.keywords.get? "TIStream" = none := rfl
  rw [firstScope_eq hfound, firstDraft_keywordDrafts, hkeyword, Option.none_or, hfirst,
    hclassify] at hagree
  exact absurd hagree (by decide)

end Lexicolor.Clangd
