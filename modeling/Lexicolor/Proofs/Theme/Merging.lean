import Mathlib
import Lexicolor.Proofs.Combination
import Lexicolor.Proofs.Json.Members
import Lexicolor.Proofs.Theme.Canonical
import Lexicolor.Proofs.Theme.Entries

/-!
# Merged token colour rules

Merging keeps one entry for each class of alike settings. It has all the scopes
of the class, each once, and no others; what else the theme holds stays as it is.
-/

namespace Lexicolor.Theme

open Json

variable {rules : List Json} {rule rule' entry : Json} {key : String} {group : RuleGroup}

/-! ## Groups -/

theorem settingsText_eq_iff : settingsText rule = settingsText rule' ↔
    (ruleSettings rule).Alike (ruleSettings rule') := by
  rw [settingsText, settingsText, String.ofList_inj, compact_canonical_eq_iff]

theorem foldl_addScope (known added : List String) :
    added.foldl (fun scopes scope => if scope ∈ scopes then scopes else scopes ++ [scope]) known =
      known ++ fresh known added := by
  induction added generalizing known with
  | nil => simp [fresh_nil]
  | cons scope added ih =>
      rw [List.foldl_cons, ih]
      split
      next hmem => rw [fresh_cons_of_mem hmem]
      next hmem => rw [fresh_cons_of_notMem hmem, List.append_assoc, List.singleton_append]

theorem RuleGroup.addScopes_addScopes (group : RuleGroup) (scopes scopes' : List String) :
    (group.addScopes scopes).addScopes scopes' = group.addScopes (scopes ++ scopes') := by
  rw [addScopes, addScopes, addScopes, List.foldl_append]

theorem RuleGroup.addScopes_nil (settings : Json) (scopes : List String) :
    RuleGroup.addScopes ⟨settings, []⟩ scopes = ⟨settings, scopes.eraseDups⟩ := by
  rw [addScopes, foldl_addScope, List.nil_append, fresh_nil_left]

/-- The group under a key once one more entry has been added to it. -/
def addRule (rule : Json) (old : Option RuleGroup) : RuleGroup :=
  (old.getD ⟨canonical (ruleSettings rule), []⟩).addScopes (ruleScopes rule)

theorem foldl_addRule (rules : List Json) (group : RuleGroup) :
    rules.foldl (fun old rule => some (addRule rule old)) (some group) =
      some (group.addScopes (rules.flatMap ruleScopes)) := by
  induction rules generalizing group with
  | nil => rfl
  | cons rule rules ih =>
      rw [List.foldl_cons, ih, List.flatMap_cons, ← RuleGroup.addScopes_addScopes]
      rfl

/-- The first entry of a group gives the settings, and all of them give their scopes. -/
theorem get?_rulesBySettings_eq_some (h : (rulesBySettings rules).get? key = some group) :
    ∃ rule ∈ rules, settingsText rule = key ∧ group = ⟨canonical (ruleSettings rule),
      ((rules.filter fun rule => settingsText rule = key).flatMap ruleScopes).eraseDups⟩ := by
  have hget := get_foldl_alter Table.get?_alter settingsText addRule rules .empty key
  rw [show (rulesBySettings rules).get? key = _ from hget, Table.get?_empty] at h
  cases hrules : rules.filter fun rule => settingsText rule = key with
  | nil =>
      rw [hrules] at h
      cases h
  | cons rule rest =>
      have hmem : rule ∈ rules.filter fun rule => settingsText rule = key := by simp [hrules]
      obtain ⟨hrule, hkey⟩ := List.mem_filter.mp hmem
      rw [hrules, List.foldl_cons, foldl_addRule, addRule, RuleGroup.addScopes_addScopes,
        Option.getD_none, RuleGroup.addScopes_nil] at h
      exact ⟨rule, hrule, by simpa using hkey, (Option.some.inj h).symm⟩

theorem keys_rulesBySettings (rules : List Json) :
    (rulesBySettings rules).keys = (rules.map settingsText).eraseDups := by
  have hkeys := Table.keys_foldl_alter settingsText addRule rules .empty
  rw [show (Table.empty : Table String RuleGroup).keys = [] from rfl, fresh_nil_left,
    List.nil_append] at hkeys
  exact hkeys

/-! ## Entries -/

/-- The entry at place `i` has such settings and lists the scope at its place `j`. -/
def AppearsAt (rules : List Json) (settings : Json) (scope : String) (i j : Nat) : Prop :=
  ∃ rule, rules[i]? = some rule ∧ (ruleSettings rule).Alike settings ∧ ListsAt rule scope j

/-- The entry for a class of alike settings. -/
structure IsEntry (rules : List Json) (settings : Json) (scopes : List String) : Prop where
  sorted : settings.KeySorted
  /-- Some entry before has such settings. -/
  given : ∃ rule ∈ rules, settings.Alike (ruleSettings rule)
  mem_iff : ∀ scope, scope ∈ scopes ↔
    ∃ rule ∈ rules, (ruleSettings rule).Alike settings ∧ Lists rule scope
  nodup : scopes.Nodup
  /-- Each scope appears before all appearances of the scopes behind it. -/
  ordered : scopes.Pairwise fun scope scope' => ∃ i j, AppearsAt rules settings scope i j ∧
    ∀ i' j', AppearsAt rules settings scope' i' j' → toLex (i, j) < toLex (i', j')

/-- The entries are the given ones, merged by their settings. -/
structure Merges (rules entries : List Json) : Prop where
  apart : entries.Pairwise fun entry entry' => ¬(ruleSettings entry).Alike (ruleSettings entry')
  kept : ∀ rule ∈ rules, ∃ entry ∈ entries, (ruleSettings entry).Alike (ruleSettings rule)
  entry : ∀ entry ∈ entries, ∃ settings scopes, IsEntry rules settings scopes ∧
    entry = .object [("scope", .stringArray scopes), ("settings", settings)]

/-! ## Appearances of scopes -/

/-- The scopes of the entries with such settings, in order of appearance. -/
def appearances (rules : List Json) (settings : Json) : List String :=
  (rules.filter fun rule => (ruleSettings rule).Alike settings).flatMap ruleScopes

/-- The appearances with their places. -/
def placedAppearances (rules : List Json) (settings : Json) : List ((Nat × Nat) × String) :=
  (rules.zipIdx.filter fun entry => (ruleSettings entry.1).Alike settings).flatMap fun entry =>
    (placedScopes entry.1).map fun place => ((entry.2, place.2), place.1)

variable {settings : Json} {scope : String} {i j : Nat}

theorem mem_appearances : scope ∈ appearances rules settings ↔
    ∃ rule ∈ rules, (ruleSettings rule).Alike settings ∧ Lists rule scope := by
  simp [appearances, mem_ruleScopes_iff, and_assoc]

theorem map_snd_placedAppearances (rules : List Json) (settings : Json) :
    (placedAppearances rules settings).map Prod.snd = appearances rules settings := by
  have hrules : (rules.filter fun rule => (ruleSettings rule).Alike settings) =
      (rules.zipIdx.filter fun entry => (ruleSettings entry.1).Alike settings).map Prod.fst := by
    conv_lhs => rw [← List.zipIdx_map_fst 0 rules, List.filter_map]
    rfl
  rw [appearances, hrules, placedAppearances, List.map_flatMap, List.flatMap_map]
  refine List.flatMap_congr fun entry _ => ?_
  rw [List.map_map, ← map_fst_placedScopes]
  rfl

theorem mem_placedAppearances : ((i, j), scope) ∈ placedAppearances rules settings ↔
    AppearsAt rules settings scope i j := by
  simp [placedAppearances, AppearsAt, mem_placedScopes, List.mem_zipIdx_iff_getElem?, and_assoc]

theorem pairwise_placedAppearances (rules : List Json) (settings : Json) :
    (placedAppearances rules settings).Pairwise fun a b => toLex a.1 < toLex b.1 := by
  rw [placedAppearances, List.pairwise_flatMap]
  constructor
  · intro entry _
    rw [List.pairwise_map]
    refine (pairwise_placedScopes entry.1).imp fun {a b} hlt => ?_
    exact Prod.Lex.toLex_lt_toLex.mpr (.inr ⟨rfl, hlt⟩)
  · refine ((pairwise_zipIdx rules).filter _).imp fun {a b} hlt p hp q hq => ?_
    obtain ⟨_, -, rfl⟩ := List.mem_map.mp hp
    obtain ⟨_, -, rfl⟩ := List.mem_map.mp hq
    exact Prod.Lex.toLex_lt_toLex.mpr (.inl hlt)

/-- In a list of places that ascend, what comes first comes before all appearances of what comes
later. -/
theorem exists_lt_of_idxOf_lt {placed : List ((Nat × Nat) × String)} {a b : String}
    (h : placed.Pairwise fun a b => toLex a.1 < toLex b.1) (ha : a ∈ placed.map Prod.snd)
    (hlt : (placed.map Prod.snd).idxOf a < (placed.map Prod.snd).idxOf b) :
    ∃ i j, ((i, j), a) ∈ placed ∧
      ∀ i' j', ((i', j'), b) ∈ placed → toLex (i, j) < toLex (i', j') := by
  induction placed with
  | nil => cases ha
  | cons item placed ih =>
      obtain ⟨⟨i, j⟩, scope⟩ := item
      obtain ⟨hfirst, hrest⟩ := List.pairwise_cons.mp h
      rw [List.map_cons] at ha hlt
      by_cases hb : scope = b
      · rw [hb, List.idxOf_cons_self] at hlt
        exact absurd hlt (Nat.not_lt_zero _)
      by_cases hscope : scope = a
      · subst hscope
        refine ⟨i, j, List.mem_cons_self, fun i' j' hmem => hfirst ((i', j'), b) ?_⟩
        exact List.mem_of_ne_of_mem (fun heq => hb (congrArg Prod.snd heq).symm) hmem
      · rw [List.idxOf_cons_ne _ hscope, List.idxOf_cons_ne _ hb] at hlt
        obtain ⟨i', j', hmem, hall⟩ := ih hrest (List.mem_of_ne_of_mem (Ne.symm hscope) ha)
          (Nat.lt_of_succ_lt_succ hlt)
        refine ⟨i', j', List.mem_cons_of_mem _ hmem, fun i j hmem => hall i j ?_⟩
        exact List.mem_of_ne_of_mem (fun heq => hb (congrArg Prod.snd heq).symm) hmem

theorem ordered_appearances (rules : List Json) (settings : Json) :
    (appearances rules settings).eraseDups.Pairwise fun scope scope' =>
      ∃ i j, AppearsAt rules settings scope i j ∧
        ∀ i' j', AppearsAt rules settings scope' i' j' → toLex (i, j) < toLex (i', j') := by
  have hplaced := pairwise_placedAppearances rules settings
  simp only [← mem_placedAppearances, ← map_snd_placedAppearances]
  refine (pairwise_eraseDups _).imp_of_mem fun ha _ hlt => ?_
  exact exists_lt_of_idxOf_lt hplaced (List.mem_eraseDups.mp ha) hlt

theorem isEntry_appearances (hrule : rule ∈ rules) :
    IsEntry rules (canonical (ruleSettings rule))
      (appearances rules (canonical (ruleSettings rule))).eraseDups where
  sorted := keySorted_canonical _
  given := ⟨rule, hrule, alike_canonical _⟩
  mem_iff scope := by rw [List.mem_eraseDups, mem_appearances]
  nodup := nodup_eraseDups _
  ordered := ordered_appearances _ _

/-- There is one list of scopes only for a class of settings. -/
theorem IsEntry.unique {scopes scopes' : List String} (h : IsEntry rules settings scopes)
    (h' : IsEntry rules settings scopes') : scopes = scopes' := by
  have hperm : scopes.Perm scopes' := by
    rw [List.perm_ext_iff_of_nodup h.nodup h'.nodup]
    intro scope
    rw [h.mem_iff, h'.mem_iff]
  apply hperm.eq_of_pairwise _ h.ordered h'.ordered
  intro a b _ _ hab hba
  obtain ⟨i, j, ha, hlt⟩ := hab
  obtain ⟨i', j', hb, hlt'⟩ := hba
  exact absurd (hlt i' j' hb) (hlt' i j ha).asymm

/-! ## Groups as entries -/

theorem ruleSettings_toRule (group : RuleGroup) : ruleSettings group.toRule = group.settings := by
  simp [ruleSettings, RuleGroup.toRule, get?, lookupEntry]

theorem settingsText_of_canonical (h : ruleSettings entry = canonical (ruleSettings rule)) :
    settingsText entry = settingsText rule := by
  rw [settingsText_eq_iff, h]
  exact alike_canonical _

theorem settingsText_toRule (h : (rulesBySettings rules).get? key = some group) :
    settingsText group.toRule = key := by
  obtain ⟨rule, -, rfl, rfl⟩ := get?_rulesBySettings_eq_some h
  exact settingsText_of_canonical (ruleSettings_toRule _)

theorem isEntry_of_get? (h : (rulesBySettings rules).get? key = some group) :
    IsEntry rules group.settings group.scopes := by
  obtain ⟨rule, hrule, rfl, rfl⟩ := get?_rulesBySettings_eq_some h
  have hclass : (rules.filter fun other => settingsText other = settingsText rule) =
      rules.filter fun other => (ruleSettings other).Alike (canonical (ruleSettings rule)) := by
    refine List.filter_congr fun other _ => ?_
    rw [decide_eq_decide, settingsText_eq_iff, ← compact_canonical_eq_iff,
      ← compact_canonical_eq_iff, canonical_eq_self (keySorted_canonical (ruleSettings rule))]
  dsimp only
  rw [hclass]
  exact isEntry_appearances hrule

/-! ## The merged entries -/

theorem perm_mergeRules (order : Table String Nat) (rules : List Json) :
    (mergeRules order rules).Perm ((rulesBySettings rules).values.map RuleGroup.toRule) :=
  List.mergeSort_perm _ _

theorem length_mergeRules (order : Table String Nat) (rules : List Json) :
    (mergeRules order rules).length = (rulesBySettings rules).size := by
  rw [(perm_mergeRules order rules).length_eq, List.length_map, Table.values, List.length_map,
    Table.size]

theorem map_settingsText_groups (rules : List Json) :
    ((rulesBySettings rules).values.map RuleGroup.toRule).map settingsText =
      (rulesBySettings rules).keys := by
  rw [Table.values, Table.keys, List.map_map, List.map_map]
  apply List.map_congr_left
  rintro ⟨key, group⟩ hmem
  exact settingsText_toRule (Table.get?_eq_some_iff.mpr hmem)

theorem merges_mergeRules (order : Table String Nat) (rules : List Json) :
    Merges rules (mergeRules order rules) where
  apart := by
    have hperm := (perm_mergeRules order rules).map settingsText
    rw [map_settingsText_groups] at hperm
    have hnodup := List.pairwise_map.mp (hperm.nodup_iff.mpr (rulesBySettings rules).nodup)
    exact hnodup.imp fun hne halike => hne (settingsText_eq_iff.mpr halike)
  kept rule hrule := by
    have hkey : settingsText rule ∈ (rulesBySettings rules).keys := by
      rw [keys_rulesBySettings, List.mem_eraseDups]
      exact List.mem_map_of_mem hrule
    rw [← map_settingsText_groups, List.mem_map] at hkey
    obtain ⟨entry, hentry, htext⟩ := hkey
    exact ⟨entry, (perm_mergeRules order rules).mem_iff.mpr hentry, settingsText_eq_iff.mp htext⟩
  entry entry hentry := by
    have hmem := (perm_mergeRules order rules).mem_iff.mp hentry
    obtain ⟨group, hgroup, rfl⟩ := List.mem_map.mp hmem
    obtain ⟨key, hget⟩ := Table.mem_values_iff.mp hgroup
    exact ⟨group.settings, group.scopes, isEntry_of_get? hget, rfl⟩

/-! ## The theme -/

theorem tokenColors_object {before : List (String × Json)}
    (h : "tokenColors" ∉ before.map Prod.fst) (rules : List Json) (after : List (String × Json)) :
    tokenColors (.object (before ++ ("tokenColors", .array rules) :: after)) = rules := by
  rw [tokenColors, get?_object h]
  rfl

/-- A theme with token colours keeps all else, in its place. The token colours are merged by their
settings, which determine what an entry lists, and the report counts them before and after. -/
theorem dedupe_merges (order : Table String Nat) (theme : Json) (rules : List Json)
    (before after : List (String × Json))
    (htheme : theme = .object (before ++ ("tokenColors", .array rules) :: after))
    (hbefore : "tokenColors" ∉ before.map Prod.fst) :
    ∃ entries, (dedupe order theme).1 =
        .object (before ++ ("tokenColors", .array entries) :: after) ∧
      Merges rules entries ∧
      (∀ settings scopes scopes', IsEntry rules settings scopes → IsEntry rules settings scopes' →
        scopes = scopes') ∧
      (dedupe order theme).2.before = rules.length ∧
      (dedupe order theme).2.after = entries.length := by
  subst htheme
  have hrules := tokenColors_object hbefore rules after
  refine ⟨mergeRules order rules, ?_, merges_mergeRules order rules, fun _ _ _ => IsEntry.unique,
    ?_, ?_⟩
  · rw [dedupe, hrules, set_object hbefore]
  · rw [dedupe, hrules]
  · rw [dedupe, hrules]

/-- Two entries with the same settings in another order, and one without settings. -/
def reddishRules : List Json := [
  .object [("scope", .string "a"), ("settings", .ofStrings [("x", "1"), ("y", "2")])],
  .object [("scope", .stringArray ["b", "a"]), ("settings", .ofStrings [("y", "2"), ("x", "1")])],
  .object []]

/-- The first two entries become one. -/
theorem dedupe_merges_reddishRules :
    (dedupe .empty (.object [("tokenColors", .array reddishRules)])).2.after = 2 ∧
    ∃ entries, (dedupe .empty (.object [("tokenColors", .array reddishRules)])).1 =
        .object [("tokenColors", .array entries)] ∧
      Merges reddishRules entries ∧ entries.length = 2 := by
  obtain ⟨entries, htheme, hmerges, -, -, hafter⟩ :=
    dedupe_merges .empty _ reddishRules [] [] rfl List.not_mem_nil
  have hsize : (rulesBySettings reddishRules).size = 2 := by cbv
  have hlength : (dedupe .empty (.object [("tokenColors", .array reddishRules)])).2.after = 2 :=
    (length_mergeRules .empty reddishRules).trans hsize
  exact ⟨hlength, entries, htheme, hmerges, hafter ▸ hlength⟩

end Lexicolor.Theme
