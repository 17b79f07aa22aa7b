import Mathlib
import Lexicolor.Clangd.Selectors
import Lexicolor.Proofs.Clangd.ModifierSets
import Lexicolor.Proofs.Grouping

/-!
# Scopes as sets of modifiers

While the rules are made, what the scopes have and what they are going to get
never changes: the scopes, in the order of their first rules, get the sets of
modifiers in the order of these. So different scopes have different sets, and
the selectors of the manifest lead back from a set to its scope.
-/

namespace Lexicolor.Clangd

variable {e : Encoding} {drafts : List Draft} {scope : String} {scopes : List String}
variable {distinct count : Nat}

/-! ## The plan of an encoding -/

/-- The modifiers that the scopes have, and those that the scopes to come are going to get. -/
def Encoding.plan (e : Encoding) (scopes : List String) : List (String × List String) :=
  e.assigned.entries ++
    (fresh e.assigned.keys scopes).zip (e.left.map fun set => set.map modifierName)

/-- There is a set left for each scope to come. -/
def Encoding.Suffices (e : Encoding) (scopes : List String) : Prop :=
  (fresh e.assigned.keys scopes).length ≤ e.left.length

/-- Admitting a scope follows the plan and leaves it as it is. -/
theorem Encoding.Suffices.admit? (h : e.Suffices (scope :: scopes)) :
    ∃ modifiers e', e.admit? scope = some (modifiers, e') ∧ e'.Suffices scopes ∧
      e'.plan scopes = e.plan (scope :: scopes) ∧
      lookupEntry scope (e.plan (scope :: scopes)) = some modifiers := by
  unfold Suffices at h
  cases hget : e.assigned.get? scope with
  | some modifiers =>
      have hmem : scope ∈ e.assigned.keys :=
        List.mem_map.mpr ⟨_, Table.get?_eq_some_iff.mp hget, rfl⟩
      rw [fresh_cons_of_mem hmem] at h
      refine ⟨modifiers, e, by simp [Encoding.admit?, hget], h, ?_, ?_⟩
      · rw [plan, plan, fresh_cons_of_mem hmem]
      · rw [plan, lookupEntry_append, show lookupEntry scope e.assigned.entries = _ from hget,
          Option.some_or]
  | none =>
      have hmem : scope ∉ e.assigned.keys := by
        intro hmem
        obtain ⟨⟨_, modifiers⟩, hentry, rfl⟩ := List.mem_map.mp hmem
        rw [Table.get?_eq_some_iff.mpr hentry] at hget
        cases hget
      -- the scope is the next one in the plan, so a set is left for it
      obtain ⟨assigned, left⟩ := e
      rw [fresh_cons_of_notMem hmem] at h
      cases left with
      | nil => simp at h
      | cons set left =>
          have hkeys : (assigned.set scope (set.map modifierName)).keys =
              assigned.keys ++ [scope] := by
            rw [Table.keys, Table.entries_set_of_notMem hmem, List.map_append]
            rfl
          refine ⟨set.map modifierName, ⟨assigned.set scope (set.map modifierName), left⟩,
            by simp [Encoding.admit?, hget], ?_, ?_, ?_⟩
          · simpa [Suffices, hkeys] using h
          · simp [plan, hkeys, Table.entries_set_of_notMem hmem, fresh_cons_of_notMem hmem]
          · rw [plan, lookupEntry_append, show lookupEntry scope assigned.entries = _ from hget,
              Option.none_or, fresh_cons_of_notMem hmem]
            simp [lookupEntry]

/-- The rule for a draft by a plan. -/
def ruleBy (plan : List (String × List String)) (draft : Draft) : Rule :=
  ⟨String.ofList draft.1, (lookupEntry draft.2 plan).getD [], draft.2⟩

/-- With sets enough, all rules are by the plan at the start. -/
theorem Encoding.Suffices.assign (h : e.Suffices (drafts.map Prod.snd)) :
    assign distinct e drafts = .ok (drafts.map (ruleBy (e.plan (drafts.map Prod.snd)))) := by
  induction drafts generalizing e with
  | nil => rfl
  | cons draft drafts ih =>
      obtain ⟨pattern, scope⟩ := draft
      obtain ⟨modifiers, e', hadmit, hsuffices, hplan, hlookup⟩ := h.admit?
      simp only [List.map_cons] at hplan hlookup ⊢
      rw [Clangd.assign, hadmit]
      simp only [ih hsuffices, hplan, Functor.map, Except.map]
      simp [ruleBy, hlookup]

theorem map_ruleBy (plan : List (String × List String)) (drafts : List Draft) :
    (drafts.map (ruleBy plan)).map (fun r => (r.regex.toList, r.scope)) = drafts := by
  rw [List.map_map]
  refine (List.map_congr_left fun draft _ => ?_).trans (List.map_id' _)
  simp [ruleBy]

/-! ## Names and selectors -/

theorem toList_modifierName (n : Nat) :
    (modifierName n).toList = "Custom".toList ++ Nat.toDigits 10 n := by
  rw [show modifierName n = "Custom" ++ Nat.repr n from rfl, String.toList_append, Nat.toList_repr]

theorem toDigits_injective : Function.Injective (Nat.toDigits 10) := by
  intro m n h
  rw [← Nat.ofDigitChars_ten_toDigits (n := m), h, Nat.ofDigitChars_ten_toDigits]

theorem toList_lower_modifierName (n : Nat) :
    (Unicode.lowerString (modifierName n)).toList = "custom".toList ++ Nat.toDigits 10 n := by
  have hdigit : ∀ c ∈ Nat.toDigits 10 n, c.toNat < 128 ∧ c.toLower = c := by
    intro c hc
    have hc := Nat.isDigit_of_mem_toDigits (by decide) (by decide) hc
    simp only [Char.isDigit, Bool.and_eq_true, decide_eq_true_eq] at hc
    have hlt : c.toNat < 128 := Nat.lt_of_le_of_lt (UInt32.le_iff_toNat_le.mp hc.2) (by decide)
    refine ⟨hlt, ?_⟩
    rw [Char.toLower, dif_neg]
    intro hupper
    exact absurd (UInt32.le_trans hupper.1 hc.2) (by decide)
  rw [Unicode.lowerString, String.toList_ofList, toList_modifierName, Unicode.lower_of_ascii]
  · rw [List.map_append, List.map_congr_left fun c hc => (hdigit c hc).2, List.map_id']
    rfl
  · intro c hc
    rcases List.mem_append.mp hc with hc | hc
    · have hascii : "Custom".toList.all fun c => c.toNat < 128 := rfl
      exact of_decide_eq_true (List.all_eq_true.mp hascii c hc)
    · exact (hdigit c hc).1

/-- Different sets have different selectors. -/
theorem selector_injective {set set' : List Nat} (hset : set ≠ []) (hset' : set' ≠ [])
    (h : selector (set.map modifierName) = selector (set'.map modifierName)) : set = set' := by
  -- no name has a dot, so the dots of a selector part it into names
  let word (n : Nat) : List Char := "custom".toList ++ Nat.toDigits 10 n
  have hword : Function.Injective word := by
    intro m n h
    exact toDigits_injective (List.append_cancel_left h)
  have hdot : ∀ l ∈ set.map word ++ set'.map word, '.' ∉ l := by
    intro l hl
    rw [← List.map_append, List.mem_map] at hl
    obtain ⟨n, -, rfl⟩ := hl
    rw [List.mem_append, not_or]
    refine ⟨by decide, fun hmem => ?_⟩
    exact absurd (Nat.isDigit_of_mem_toDigits (by decide) (by decide) hmem) (by decide)
  have htext (set : List Nat) : (selector (set.map modifierName)).toList =
      "*.".toList ++ ['.'].intercalate (set.map word) := by
    rw [selector, String.toList_append, String.toList_intercalate, List.map_map, List.map_map]
    simp only [Function.comp_def, toList_lower_modifierName]
    rfl
  have hjoin := congrArg String.toList h
  rw [htext, htext, List.append_cancel_left_eq] at hjoin
  have hsplit := congrArg (List.splitOn '.') hjoin
  rw [List.splitOn_intercalate '.' (fun l hl => hdot l (List.mem_append_left _ hl))
      (by simpa using hset),
    List.splitOn_intercalate '.' (fun l hl => hdot l (List.mem_append_right _ hl))
      (by simpa using hset')] at hsplit
  exact List.map_injective_iff.mpr hword hsplit

/-! ## The rules -/

/-- The scopes of the drafts, in the order of their first drafts. -/
def scopesOf (drafts : List Draft) : List String := (drafts.map Prod.snd).eraseDups

theorem nodup_scopesOf (drafts : List Draft) : (scopesOf drafts).Nodup := nodup_eraseDups _

theorem mem_scopesOf {draft : Draft} (h : draft ∈ drafts) : draft.2 ∈ scopesOf drafts :=
  List.mem_eraseDups.mpr (List.mem_map.mpr ⟨draft, h, rfl⟩)

/-- The sets of `count` modifiers for the scopes in order. -/
def planOf (count : Nat) (scopes : List String) : List (String × List String) :=
  scopes.zip ((modifierSets count).map fun set => set.map modifierName)

/-- The rules for the drafts when the scopes share the sets of `count` modifiers. -/
def planned (count : Nat) (drafts : List Draft) : List Rule :=
  drafts.map (ruleBy (planOf count (scopesOf drafts)))

theorem assignModifiers_of_le (h : (scopesOf drafts).length ≤ 511) :
    assignModifiers drafts = .ok (planned (leastCount (scopesOf drafts).length 0) drafts) := by
  have hsuffices : (⟨.empty, modifierSets (leastCount (scopesOf drafts).length 0)⟩ :
      Encoding).Suffices (drafts.map Prod.snd) := by
    show (fresh [] _).length ≤ _
    rw [fresh_nil_left, length_modifierSets]
    exact le_leastCount _ _
  have hplan : (⟨.empty, modifierSets (leastCount (scopesOf drafts).length 0)⟩ :
      Encoding).plan (drafts.map Prod.snd) =
        planOf (leastCount (scopesOf drafts).length 0) (scopesOf drafts) := by
    show [] ++ (fresh [] _).zip _ = _
    rw [fresh_nil_left, List.nil_append, planOf, scopesOf]
  show (modifierCount (scopesOf drafts).length >>= fun count =>
    assign _ ⟨.empty, modifierSets count⟩ drafts) = _
  rw [modifierCount_of_le h, planned, ← hplan]
  exact hsuffices.assign

theorem assignModifiers_of_lt (h : 511 < (scopesOf drafts).length) :
    assignModifiers drafts = .error (.tooManyScopes (scopesOf drafts).length maxModifiers) := by
  show (modifierCount (scopesOf drafts).length >>= fun count =>
    assign _ ⟨.empty, modifierSets count⟩ drafts) = _
  rw [modifierCount_of_lt h]
  rfl

/-- With sets enough, a scope gets the set at its place. -/
theorem exists_set_of_mem (h : scope ∈ scopes) (hnodup : scopes.Nodup)
    (hle : scopes.length ≤ (modifierSets count).length) :
    ∃ (k : Nat) (set : List Nat), scopes[k]? = some scope ∧ (modifierSets count)[k]? = some set ∧
      lookupEntry scope (planOf count scopes) = some (set.map modifierName) := by
  obtain ⟨k, hk, hscope⟩ := List.mem_iff_getElem.mp h
  have hget : scopes[k]? = some scope := by rw [List.getElem?_eq_getElem hk, hscope]
  have hset := List.getElem?_eq_getElem (Nat.lt_of_lt_of_le hk hle)
  refine ⟨k, _, hget, hset, ?_⟩
  rw [planOf, lookupEntry_zip hnodup hget, List.getElem?_map, hset, Option.map_some]

/-- The rules express every scope by a set of `count` modifiers of its own, and the selectors
lead back from the sets to the scopes. -/
structure Encodes (rules : List Rule) (count : Nat) : Prop where
  modifiers_eq_iff : ∀ r ∈ rules, ∀ r' ∈ rules, r.modifiers = r'.modifiers ↔ r.scope = r'.scope
  ascending : ∀ r ∈ rules, ∃ set : List Nat, r.modifiers = set.map modifierName ∧
    set ≠ [] ∧ set.Pairwise (· < ·) ∧ ∀ i ∈ set, i < count
  in_order : ∀ (k : Nat) scope, (rules.map Rule.scope).eraseDups[k]? = some scope →
    ∃ set : List Nat, (modifierSets count)[k]? = some set ∧
      ∀ r ∈ rules, r.scope = scope → r.modifiers = set.map modifierName
  size_selectors : (selectors rules).size = (rules.map Rule.scope).toFinset.card
  mem_selectors : ∀ key ∈ (selectors rules).keys, ∃ r ∈ rules, key = selector r.modifiers
  get?_selectors : ∀ r ∈ rules,
    (selectors rules).get? (selector r.modifiers) = some [Scope.dotted r.scope]

/-! ## Selectors of rules -/

/-- What a rule does to the scopes of its selector. -/
def addScope (r : Rule) (old : Option (List String)) : List String :=
  match old with
  | none => [Scope.dotted r.scope]
  | some scopes =>
      if Scope.dotted r.scope ∈ scopes then scopes else scopes ++ [Scope.dotted r.scope]

theorem selectors_eq (rules : List Rule) : selectors rules = rules.foldl
    (fun found r => found.alter (selector r.modifiers) (addScope r)) .empty := rfl

/-- A scope that is listed is not listed again. -/
theorem foldl_addScope_some {rules : List Rule} (h : ∀ r ∈ rules, r.scope = scope) :
    rules.foldl (fun old r => some (addScope r old)) (some [Scope.dotted scope]) =
      some [Scope.dotted scope] := by
  induction rules with
  | nil => rfl
  | cons r rules ih =>
      obtain ⟨hr, h⟩ := List.forall_mem_cons.mp h
      rw [List.foldl_cons, addScope, hr, if_pos (List.mem_singleton.mpr rfl), ih h]

/-- Rules of one scope list it once. -/
theorem foldl_addScope {rules : List Rule} (hne : rules ≠ []) (h : ∀ r ∈ rules, r.scope = scope) :
    rules.foldl (fun old r => some (addScope r old)) none = some [Scope.dotted scope] := by
  cases rules with
  | nil => exact absurd rfl hne
  | cons r rules =>
      obtain ⟨hr, h⟩ := List.forall_mem_cons.mp h
      rw [List.foldl_cons, addScope, hr, foldl_addScope_some h]

theorem keys_selectors (rules : List Rule) :
    (selectors rules).keys = (rules.map fun r => selector r.modifiers).eraseDups := by
  rw [selectors_eq, Table.keys_foldl_alter]
  exact fresh_nil_left _

theorem get?_selectors {rules : List Rule} {r : Rule} (hr : r ∈ rules)
    (h : ∀ r' ∈ rules, selector r'.modifiers = selector r.modifiers → r'.scope = r.scope) :
    (selectors rules).get? (selector r.modifiers) = some [Scope.dotted r.scope] := by
  rw [selectors_eq,
    get_foldl_alter Table.get?_alter (fun r : Rule => selector r.modifiers) addScope]
  apply foldl_addScope
  · exact List.ne_nil_of_mem (List.mem_filter.mpr ⟨hr, by simp⟩)
  · intro r' hr'
    obtain ⟨hmem, heq⟩ := List.mem_filter.mp hr'
    exact h r' hmem (of_decide_eq_true heq)

theorem card_toFinset_eraseDups (l : List String) : l.toFinset.card = l.eraseDups.length := by
  rw [← List.toFinset_card_of_nodup (nodup_eraseDups l)]
  congr 1
  ext k
  simp [List.mem_eraseDups]

/-- There are as many selectors as scopes, if the selector is one to one in the scope. -/
theorem size_selectors {rules : List Rule} {g : String → String}
    (hg : ∀ r ∈ rules, selector r.modifiers = g r.scope)
    (hinj : ∀ r ∈ rules, ∀ r' ∈ rules, g r.scope = g r'.scope → r.scope = r'.scope) :
    (selectors rules).size = (rules.map Rule.scope).toFinset.card := by
  have hsize : (selectors rules).size = (selectors rules).keys.length := (List.length_map _).symm
  have himage : (rules.map fun r => selector r.modifiers).toFinset =
      (rules.map Rule.scope).toFinset.image g := by
    ext key
    simp only [List.mem_toFinset, List.mem_map, Finset.mem_image]
    constructor
    · rintro ⟨r, hr, rfl⟩
      exact ⟨r.scope, ⟨r, hr, rfl⟩, (hg r hr).symm⟩
    · rintro ⟨_, ⟨r, hr, rfl⟩, rfl⟩
      exact ⟨r, hr, hg r hr⟩
  rw [hsize, keys_selectors, ← card_toFinset_eraseDups, himage, Finset.card_image_of_injOn]
  intro scope hscope scope' hscope' heq
  obtain ⟨r, hr, rfl⟩ := List.mem_map.mp (List.mem_toFinset.mp hscope)
  obtain ⟨r', hr', rfl⟩ := List.mem_map.mp (List.mem_toFinset.mp hscope')
  exact hinj r hr r' hr' heq

/-! ## Every run encodes -/

theorem eraseDups_scope_planned (count : Nat) (drafts : List Draft) :
    ((planned count drafts).map Rule.scope).eraseDups = scopesOf drafts := by
  rw [planned, List.map_map]
  rfl

section

variable {r r' : Rule}

theorem modifiers_of_mem_planned (hr : r ∈ planned count drafts) :
    r.modifiers = (lookupEntry r.scope (planOf count (scopesOf drafts))).getD [] := by
  obtain ⟨draft, -, rfl⟩ := List.mem_map.mp hr
  rfl

/-- With sets enough, every rule has the set at the place of its scope. -/
theorem exists_set_of_mem_planned (h : (scopesOf drafts).length ≤ 2 ^ count - 1)
    (hr : r ∈ planned count drafts) : ∃ (k : Nat) (set : List Nat),
      (scopesOf drafts)[k]? = some r.scope ∧ (modifierSets count)[k]? = some set ∧
        r.modifiers = set.map modifierName := by
  rw [← length_modifierSets] at h
  obtain ⟨draft, hdraft, rfl⟩ := List.mem_map.mp hr
  obtain ⟨k, set, hk, hset, hlookup⟩ :=
    exists_set_of_mem (mem_scopesOf hdraft) (nodup_scopesOf drafts) h
  exact ⟨k, set, hk, hset, by simp [ruleBy, hlookup]⟩

/-- A selector belongs to one set, a set to one place, and a place to one scope. -/
theorem scope_eq_of_selector_eq (h : (scopesOf drafts).length ≤ 2 ^ count - 1)
    (hr : r ∈ planned count drafts) (hr' : r' ∈ planned count drafts)
    (heq : selector r.modifiers = selector r'.modifiers) : r.scope = r'.scope := by
  obtain ⟨k, set, hk, hset, hmodifiers⟩ := exists_set_of_mem_planned h hr
  obtain ⟨k', set', hk', hset', hmodifiers'⟩ := exists_set_of_mem_planned h hr'
  have hne := (of_mem_modifierSets (List.mem_of_getElem? hset)).1
  have hne' := (of_mem_modifierSets (List.mem_of_getElem? hset')).1
  rw [hmodifiers, hmodifiers'] at heq
  cases selector_injective hne hne' heq
  have hlt := (List.getElem?_eq_some_iff.mp hset).1
  cases (List.getElem?_inj hlt (nodup_modifierSets count)).mp (hset.trans hset'.symm)
  exact Option.some.inj (hk.symm.trans hk')

theorem modifiers_eq_iff (h : (scopesOf drafts).length ≤ 2 ^ count - 1)
    (hr : r ∈ planned count drafts) (hr' : r' ∈ planned count drafts) :
    r.modifiers = r'.modifiers ↔ r.scope = r'.scope := by
  constructor
  · intro heq
    exact scope_eq_of_selector_eq h hr hr' (congrArg selector heq)
  · intro heq
    rw [modifiers_of_mem_planned hr, modifiers_of_mem_planned hr', heq]

end

/-- The scope that comes `k`-th gets the `k`-th set. -/
theorem exists_set_in_order {k : Nat} (h : (scopesOf drafts).length ≤ 2 ^ count - 1)
    (hk : ((planned count drafts).map Rule.scope).eraseDups[k]? = some scope) :
    ∃ set : List Nat, (modifierSets count)[k]? = some set ∧
      ∀ r ∈ planned count drafts, r.scope = scope → r.modifiers = set.map modifierName := by
  rw [eraseDups_scope_planned] at hk
  have hlt : k < (modifierSets count).length := by
    rw [length_modifierSets]
    exact Nat.lt_of_lt_of_le (List.getElem?_eq_some_iff.mp hk).1 h
  have hset := List.getElem?_eq_getElem hlt
  refine ⟨_, hset, fun r hr heq => ?_⟩
  rw [modifiers_of_mem_planned hr, heq, planOf, lookupEntry_zip (nodup_scopesOf drafts) hk,
    List.getElem?_map, hset]
  rfl

theorem encodes_of_le (h : (scopesOf drafts).length ≤ 2 ^ count - 1) :
    Encodes (planned count drafts) count := by
  refine ⟨?_, ?_, ?_, ?_, ?_, ?_⟩
  · intro r hr r' hr'
    exact modifiers_eq_iff h hr hr'
  · intro r hr
    obtain ⟨k, set, -, hset, hmodifiers⟩ := exists_set_of_mem_planned h hr
    exact ⟨set, hmodifiers, of_mem_modifierSets (List.mem_of_getElem? hset)⟩
  · intro k scope hk
    exact exists_set_in_order h hk
  · let modifiersOf (scope : String) : List String :=
      (lookupEntry scope (planOf count (scopesOf drafts))).getD []
    have hof : ∀ r ∈ planned count drafts, selector r.modifiers = selector (modifiersOf r.scope) :=
      fun r hr => congrArg selector (modifiers_of_mem_planned hr)
    refine size_selectors (g := fun scope => selector (modifiersOf scope)) hof ?_
    intro r hr r' hr' heq
    exact scope_eq_of_selector_eq h hr hr' (by rwa [hof r hr, hof r' hr'])
  · intro key hkey
    rw [keys_selectors, List.mem_eraseDups] at hkey
    obtain ⟨r, hr, heq⟩ := List.mem_map.mp hkey
    exact ⟨r, hr, heq.symm⟩
  · intro r hr
    exact get?_selectors hr fun r' hr' heq => scope_eq_of_selector_eq h hr' hr heq

/-- The number of different scopes of the drafts for a table. -/
def distinctScopes (table : ScopeTable) : Nat := ((allDrafts table).map Prod.snd).toFinset.card

/-- The rules fail exactly for more than 511 scopes, and otherwise express every scope by a set of
modifiers of its own, with as few modifiers as possible. -/
theorem rules_encode (table : ScopeTable) :
    (∀ problem, rules table = .error problem ↔
      511 < distinctScopes table ∧ problem = .tooManyScopes (distinctScopes table) maxModifiers) ∧
    (distinctScopes table ≤ 511 → ∃ found count, rules table = .ok found ∧
      found.map (fun r => (r.regex.toList, r.scope)) = allDrafts table ∧
      IsLeast {m | distinctScopes table ≤ 2 ^ m - 1} count ∧ Encodes found count) := by
  have hcard : distinctScopes table = (scopesOf (allDrafts table)).length :=
    card_toFinset_eraseDups _
  rw [hcard]
  constructor
  · intro problem
    rcases Nat.lt_or_ge 511 (scopesOf (allDrafts table)).length with hlt | hle
    · rw [rules, assignModifiers_of_lt hlt, Except.error.injEq, eq_comm, and_iff_right hlt]
    · rw [rules, assignModifiers_of_le hle]
      simp [hle.not_gt]
  · intro hle
    exact ⟨_, leastCount (scopesOf (allDrafts table)).length 0, assignModifiers_of_le hle,
      map_ruleBy _ _, ⟨le_leastCount _ _, fun m hm => leastCount_le (Nat.zero_le m) hm⟩,
      encodes_of_le (le_leastCount _ _)⟩

/-- Two scopes of three share the second modifier. -/
def palette : ScopeTable :=
  ⟨⟨[("int", "b"), ("auto", "a"), ("nil", "b")], by decide⟩, ⟨[("C", ⟨"c", false⟩)], by decide⟩, []⟩

theorem palette_encodes : distinctScopes palette ≤ 511 ∧ ∃ found count, rules palette = .ok found ∧
    found.map (fun r => (r.regex.toList, r.scope)) = allDrafts palette ∧
    IsLeast {m | distinctScopes palette ≤ 2 ^ m - 1} count ∧ Encodes found count := by
  have hfew : distinctScopes palette ≤ 511 := by cbv
  exact ⟨hfew, (rules_encode palette).2 hfew⟩

end Lexicolor.Clangd
