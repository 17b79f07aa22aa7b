import Mathlib
import Lexicolor.Proofs.Clangd.Agreement

/-!
# Where the rules reproduce the classifier

On letters and underscores a prefix offers the scope that the classifier takes
from it, and the patterns of longer prefixes come first. So nothing but the
grouping of the patterns by scope can make rules and classifier disagree there.
-/

namespace Lexicolor.Clangd

open Computability Pattern

variable {table : ScopeTable} {scope word head : String} {entry : PrefixScope} {found : List Rule}
variable {c : Char} {rest : List Char}

/-! ## Letters and underscores -/

theorem isUpper_of_isCapital (hcapital : Identifier.isCapital c) (hc : c.isAlpha ∨ c = '_') :
    c.isUpper := by
  simp only [Char.isAlpha, Bool.or_eq_true] at hc
  rcases hc with (hupper | hlower) | rfl
  · exact hupper
  · simp [Identifier.isCapital, Char.isUpper, Char.isLower, Char.isDigit, Char.le_def,
      UInt32.le_iff_toNat_le] at hcapital hlower ⊢
    omega
  · contradiction

theorem mem_identChars (hletters : ∀ d ∈ rest, d.isAlpha ∨ d = '_') :
    rest ∈ (anyOf Text.isIdentChar)∗ := by
  apply mem_kstar_anyOf.mpr
  intro d hd
  rcases hletters d hd with halpha | rfl
  · simp [Text.isIdentChar, Char.isAlphanum, halpha]
  · rfl

theorem mem_capitalized (hcapital : Identifier.isCapital c)
    (hletters : ∀ d ∈ c :: rest, d.isAlpha ∨ d = '_') : c :: rest ∈ capitalized := by
  obtain ⟨hc, hrest⟩ := List.forall_mem_cons.mp hletters
  exact mem_anyOf_mul.mpr ⟨c, rest, isUpper_of_isCapital hcapital hc, mem_identChars hrest, rfl⟩

/-- The prefix `E` offers the scope that the classifier takes from it. -/
theorem offers_enumeration (hcapital : Identifier.isCapital c)
    (hletters : ∀ d ∈ c :: rest, d.isAlpha ∨ d = '_') (hkind : entry.isVariable = false)
    (hword : word.toList = "E".toList ++ c :: rest) :
    Offers "E" entry (entry.scopeOf "E" word) word.toList := by
  have hc := isUpper_of_isCapital hcapital (hletters c List.mem_cons_self)
  have hmem : '_' ∈ word.toList ↔ '_' ∈ rest := by
    have hne : '_' ≠ c := by
      rintro rfl
      contradiction
    simp [hword, hne]
  by_cases hbar : '_' ∈ rest
  · rw [PrefixScope.scopeOf, if_neg fun h => h.2.2 (hmem.mpr hbar), if_neg (by simp)]
    obtain ⟨before, after, rfl⟩ := List.append_of_mem hbar
    refine .enumerator rfl (mem_singleton_mul.mpr ⟨_, ?_, hword⟩)
    rw [← List.cons_append] at hletters
    refine Language.mem_mul.mpr ⟨c :: before, ?_, '_' :: after, ?_, rfl⟩
    · exact mem_capitalized hcapital fun d hd => hletters d (List.mem_append_left _ hd)
    · refine mem_singleton_mul.mpr ⟨after, mem_identChars fun d hd => ?_, rfl⟩
      exact hletters d (List.mem_append_right _ (List.mem_cons_of_mem _ hd))
  · rw [PrefixScope.scopeOf, if_pos ⟨hkind, rfl, hmem.not.mpr hbar⟩]
    refine .enumeration rfl (mem_singleton_mul.mpr ⟨_, ?_, hword⟩)
    refine mem_anyOf_mul.mpr ⟨c, rest, hc, mem_kstar_anyOf.mpr fun d hd => ?_, rfl⟩
    have halpha : d.isAlpha := by
      apply (hletters d (List.mem_cons_of_mem c hd)).resolve_right
      rintro rfl
      exact hbar hd
    simp [Char.isAlphanum, halpha]

/-- A reference has a capital of its own in front of its end, or it is `CFRef`. -/
theorem suffix_of_reference (hword : word.toList = "CF".toList ++ c :: rest)
    (hRef : "Ref".toList <:+ word.toList) (hne : word ≠ "CFRef") : "Ref".toList <:+ rest := by
  rw [hword] at hRef
  rcases List.suffix_cons_iff.mp hRef with heq | hRef
  · cases heq
  rcases List.suffix_cons_iff.mp hRef with heq | hRef
  · cases heq
  rcases List.suffix_cons_iff.mp hRef with heq | hRef
  · refine absurd (String.toList_inj.mp ?_) hne
    rw [hword, ← heq]
    rfl
  · exact hRef

/-- The prefix `CF` offers the scope that the classifier takes from it. The word `CFRef` is left
aside: it is a type for the classifier only. -/
theorem offers_foundation (hcapital : Identifier.isCapital c)
    (hletters : ∀ d ∈ c :: rest, d.isAlpha ∨ d = '_') (hkind : entry.isVariable = false)
    (hword : word.toList = "CF".toList ++ c :: rest) (hne : word ≠ "CFRef") :
    Offers "CF" entry (entry.scopeOf "CF" word) word.toList := by
  by_cases hRef : "Ref".toList <:+ word.toList
  · rw [PrefixScope.scopeOf, if_neg (by simp), if_pos ⟨hkind, rfl, hRef⟩]
    -- the pattern for types needs a capital of its own in front
    obtain ⟨before, rfl⟩ := suffix_of_reference hword hRef hne
    rw [← List.cons_append] at hletters
    refine .reference rfl (mem_singleton_mul.mpr ⟨_, ?_, hword⟩)
    refine Language.mem_mul.mpr ⟨c :: before, ?_, "Ref".toList, rfl, rfl⟩
    exact mem_capitalized hcapital fun d hd => hletters d (List.mem_append_left _ hd)
  · rw [PrefixScope.scopeOf, if_neg (by simp), if_neg fun h => hRef h.2.2]
    exact .foundation rfl (mem_singleton_mul.mpr ⟨_, mem_capitalized hcapital hletters, hword⟩)

theorem scopeOf_ordinary (hE : head ≠ "E") (hCF : head ≠ "CF") (entry : PrefixScope) :
    entry.scopeOf head word = entry.scope := by
  rw [PrefixScope.scopeOf, if_neg fun h => hE h.2.1, if_neg fun h => hCF h.2.1]

/-- A plain or variable prefix that fits offers the scope that the classifier takes from it. -/
theorem offers_of_fits (hfits : table.Fits word head entry)
    (hletters : ∀ d ∈ word.toList, d.isAlpha ∨ d = '_')
    (hkind : entry.isVariable → head ≠ "E" ∧ head ≠ "CF") (hne : word ≠ "CFRef") :
    Offers head entry (entry.scopeOf head word) word.toList := by
  have hfits := hfits.fits
  cases hvariable : entry.isVariable with
  | false =>
      rw [hvariable, if_neg Bool.false_ne_true] at hfits
      obtain ⟨c, rest, hc, hword⟩ := Identifier.fitsPlain_iff.mp hfits
      have hrest : ∀ d ∈ c :: rest, d.isAlpha ∨ d = '_' := fun d hd =>
        hletters d (hword ▸ List.mem_append_right _ hd)
      -- only among plain prefixes are those with patterns of their own
      by_cases hE : head = "E"
      · subst hE
        exact offers_enumeration hc hrest hvariable hword
      by_cases hCF : head = "CF"
      · subst hCF
        exact offers_foundation hc hrest hvariable hword hne
      · rw [scopeOf_ordinary hE hCF]
        refine .ordinary hE hCF (mem_singleton_mul.mpr ⟨_, ?_, hword⟩)
        rw [hvariable, conceptWords, if_neg Bool.false_ne_true, one_mul]
        exact mem_capitalized hc hrest
  | true =>
      obtain ⟨hE, hCF⟩ := hkind hvariable
      rw [hvariable, if_pos rfl] at hfits
      rw [scopeOf_ordinary hE hCF]
      apply Offers.ordinary hE hCF
      rw [hvariable, conceptWords, if_pos rfl, add_mul, one_mul, mul_add, Language.mem_add]
      rcases Identifier.fitsVariable_iff.mp hfits with hplain | ⟨k, c, rest, hk, hc, hword⟩
      · obtain ⟨c, rest, hc, hword⟩ := Identifier.fitsPlain_iff.mp hplain
        refine .inl (mem_singleton_mul.mpr ⟨_, mem_capitalized hc fun d hd => ?_, hword⟩)
        exact hletters d (hword ▸ List.mem_append_right _ hd)
      · refine .inr (mem_singleton_mul.mpr ⟨_, ?_, hword⟩)
        refine mem_anyOf_mul.mpr ⟨k, c :: rest, hk, mem_capitalized hc fun d hd => ?_, rfl⟩
        exact hletters d (hword ▸ List.mem_append_right _ (List.mem_cons_of_mem k hd))

/-! ## The order of the patterns -/

/-- Along the patterns in order, the places of their scopes do not descend: none of them joins the
rule of a scope from which another scope separates it. -/
def KeepsOrder (table : ScopeTable) : Prop :=
  (orderedPatterns table).Pairwise fun a b => place table a.2 ≤ place table b.2

instance : DecidablePred KeepsOrder := fun table =>
  inferInstanceAs (Decidable ((orderedPatterns table).Pairwise
    fun a b => place table a.2 ≤ place table b.2))

/-- Of two prefixes that fit, the shorter one starts the longer one. -/
theorem byteLength_lt_of_length_lt {other : String} {entry' : PrefixScope}
    (hfits : table.Fits word head entry) (hfits' : table.Fits word other entry')
    (hlt : other.length < head.length) :
    Text.byteLength other.toList < Text.byteLength head.toList := by
  obtain ⟨rest, hrest⟩ := hfits.eq_append
  obtain ⟨rest', hrest'⟩ := hfits'.eq_append
  obtain ⟨tail, htail⟩ : other.toList <+: head.toList := by
    refine List.prefix_of_prefix_length_le ⟨rest', hrest'.symm⟩ ⟨rest, hrest.symm⟩ ?_
    rw [String.length_toList, String.length_toList]
    exact hlt.le
  rw [← htail]
  apply Text.byteLength_lt
  rintro rfl
  rw [List.append_nil, String.toList_inj] at htail
  exact absurd hlt (htail ▸ lt_irrefl _)

/-- Of two prefixes that fit, the patterns of the longer one come first. -/
theorem KeepsOrder.place_le_of_length_lt {other scope' : String} {entry' : PrefixScope}
    (h : KeepsOrder table) (hfits : table.Fits word head entry)
    (hfits' : table.Fits word other entry') (hlt : other.length < head.length)
    (hoffers : Offers head entry scope word.toList)
    (hoffers' : Offers other entry' scope' word.toList) :
    place table scope ≤ place table scope' := by
  obtain ⟨draft, hdraft, rfl, -⟩ := exists_mem_prefixPatterns_iff.mpr hoffers
  obtain ⟨draft', hdraft', rfl, -⟩ := exists_mem_prefixPatterns_iff.mpr hoffers'
  have hbytes := byteLength_lt_of_length_lt hfits hfits' hlt
  have hpairwise := (List.pairwise_flatMap.mp h).2
  exact Text.rel_of_pairwise_longestFirst hpairwise (Table.get?_eq_some_iff.mp hfits.mem)
    (Table.get?_eq_some_iff.mp hfits'.mem) hbytes draft hdraft draft' hdraft'

/-- A prefix offers the scope that the classifier takes from it, or also its own to a reference. -/
theorem Offers.eq_scopeOf_or (h : Offers head entry scope word.toList)
    (hkind : entry.isVariable → head ≠ "E" ∧ head ≠ "CF") : scope = entry.scopeOf head word ∨
      (head = "CF" ∧ entry.scopeOf head word = Scope.type ∧ scope = entry.scope) := by
  have hplain (hnot : ¬entry.isVariable) : entry.isVariable = false := Bool.eq_false_iff.mpr hnot
  cases h with
  | ordinary hE hCF => exact .inl (scopeOf_ordinary hE hCF entry).symm
  | enumerator hname hword =>
      subst hname
      -- an underscore tells enumerators from enumerations
      have hbar : '_' ∈ word.toList := by
        obtain ⟨_, hrest, hword⟩ := mem_singleton_mul.mp hword
        obtain ⟨before, -, _, htail, rfl⟩ := Language.mem_mul.mp hrest
        obtain ⟨after, -, rfl⟩ := mem_singleton_mul.mp htail
        simp [hword]
      left
      rw [PrefixScope.scopeOf, if_neg fun h => h.2.2 hbar, if_neg (by simp)]
  | enumeration hname hword =>
      subst hname
      have hbar : '_' ∉ word.toList := by
        obtain ⟨_, htail, hword⟩ := mem_singleton_mul.mp hword
        obtain ⟨c, rest, hc, hrest, rfl⟩ := mem_anyOf_mul.mp htail
        rw [hword]
        rintro (_ | ⟨_, _ | ⟨_, hbar⟩⟩)
        · contradiction
        · exact absurd (mem_kstar_anyOf.mp hrest '_' hbar) (by decide)
      left
      rw [PrefixScope.scopeOf, if_pos ⟨hplain fun h => (hkind h).1 rfl, rfl, hbar⟩]
  | reference hname hword =>
      subst hname
      have hRef : "Ref".toList <:+ word.toList := by
        obtain ⟨_, hrest, hword⟩ := mem_singleton_mul.mp hword
        obtain ⟨before, -, _, rfl, rfl⟩ := Language.mem_mul.mp hrest
        exact ⟨['C', 'F'] ++ before, by rw [hword, List.append_assoc]; rfl⟩
      left
      rw [PrefixScope.scopeOf, if_neg (by simp),
        if_pos ⟨hplain fun h => (hkind h).2 rfl, rfl, hRef⟩]
  | foundation hname =>
      subst hname
      rw [PrefixScope.scopeOf, if_neg (by simp)]
      split
      · exact .inr ⟨rfl, rfl, rfl⟩
      · exact .inl rfl

theorem KeepsOrder.place_type_le (h : KeepsOrder table)
    (hget : table.prefixes.get? "CF" = some entry) :
    place table Scope.type ≤ place table entry.scope := by
  have hmem : ("CF", entry) ∈ Text.longestFirst (fun entry => entry.1.toList)
      table.prefixes.entries := Text.mem_longestFirst.mpr (Table.get?_eq_some_iff.mp hget)
  have hpairwise := (List.pairwise_flatMap.mp h).1 _ hmem
  exact (List.pairwise_cons.mp hpairwise).1 _ List.mem_cons_self

/-- A prefix that fits leads if no longer one does. -/
theorem KeepsOrder.leads (h : KeepsOrder table) (howner : Owner table word head entry)
    (hkinds : ∀ head entry, table.prefixes.get? head = some entry → entry.isVariable →
      head ≠ "E" ∧ head ≠ "CF")
    (hletters : ∀ d ∈ word.toList, d.isAlpha ∨ d = '_') (hne : word ≠ "CFRef") :
    Leads table word head entry := by
  have hkind := hkinds head entry howner.fits.mem
  have hoffers := offers_of_fits howner.fits hletters hkind hne
  refine ⟨⟨head, entry, howner.fits.mem, hoffers⟩, ?_⟩
  rintro scope ⟨other, entry', hget, hoffers'⟩
  have hfits' : table.Fits word other entry' := ⟨hget, hoffers'.fits⟩
  -- a shorter prefix comes later, and one of the same length is the same prefix
  rcases (howner.longest other entry' hfits').lt_or_eq with hlt | heq
  · exact h.place_le_of_length_lt howner.fits hfits' hlt hoffers hoffers'
  · obtain ⟨rfl, rfl⟩ := hfits'.eq_of_length howner.fits heq
    rcases hoffers'.eq_scopeOf_or hkind with rfl | ⟨rfl, htype, rfl⟩
    · exact le_rfl
    · rw [htype]
      exact h.place_type_le hget

/-- Unless the grouping by scope changes the order of the patterns, the rules reproduce the
classifier on letters and underscores. -/
theorem firstScope_eq_classify_of_keepsOrder (h : rules table = .ok found)
    (hnamed : ∀ keyword scope, table.keywords.get? keyword = some scope → scope ≠ "")
    (hkinds : ∀ head entry, table.prefixes.get? head = some entry → entry.isVariable →
      head ≠ "E" ∧ head ≠ "CF")
    (horder : KeepsOrder table) (hletters : ∀ d ∈ word.toList, d.isAlpha ∨ d = '_')
    (hne : word ≠ "CFRef") : firstScope found word = table.classify word := by
  rw [firstScope_eq_classify_iff_leads h hnamed]
  intro _ head entry howner
  exact horder.leads howner hkinds hletters hne

/-- Prefixes with a scope each keep their order even where one starts another. -/
example : decide (KeepsOrder ⟨.empty, ⟨[("T", ⟨"malterlib-template", false⟩),
    ("TI", ⟨"malterlib-interface", false⟩)], by decide⟩, []⟩) = true := by cbv

end Lexicolor.Clangd
