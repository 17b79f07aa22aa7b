import Mathlib
import Lexicolor.Proofs.Theme.Merging

/-!
# Merging again

Merged entries are settled: in canonical form, no two with the same settings,
and in order of priority. Merging leaves settled entries alone, so a theme that
has been merged stays as it is when it is merged again.
-/

namespace Lexicolor

theorem alterEntries_alterEntries {κ υ : Type} [DecidableEq κ] (key : κ) (f g : Option υ → υ)
    (entries : List (κ × υ)) : alterEntries key g (alterEntries key f entries) =
      alterEntries key (fun old => g (some (f old))) entries := by
  induction entries with
  | nil => simp [alterEntries]
  | cons entry entries ih =>
      by_cases h : entry.1 = key <;> simp [alterEntries, h, ih]

theorem Json.set_set (json : Json) (key : String) (value value' : Json) :
    (json.set key value).set key value' = json.set key value' := by
  cases json with
  | object members => simp only [Json.set, alterEntries_alterEntries]
  | _ => rfl

namespace Theme

open Json

variable {order : Table String Nat} {rules entries : List Json} {entry : Json} {p q r : Priority}

/-! ## Priorities -/

theorem Priority.le_iff : p.le q ↔ toLex p.rank ≤ toLex q.rank := by
  simp [Priority.le, Prod.Lex.le_iff]

theorem Priority.le_trans (hpq : p.le q) (hqr : q.le r) : p.le r := by
  rw [Priority.le_iff] at hpq hqr ⊢
  exact hpq.trans hqr

theorem Priority.le_total (p q : Priority) : (p.le q || q.le p) = true := by
  rw [Bool.or_eq_true, Priority.le_iff, Priority.le_iff]
  exact LinearOrder.le_total _ _

theorem pairwise_mergeRules (order : Table String Nat) (rules : List Json) :
    (mergeRules order rules).Pairwise fun a b => (priority order a).le (priority order b) :=
  @List.pairwise_mergeSort _ (fun a b => (priority order a).le (priority order b))
    (fun _ _ _ => Priority.le_trans) (fun _ _ => Priority.le_total _ _) _

/-! ## Settled entries -/

theorem ruleScopes_toRule (group : RuleGroup) : ruleScopes group.toRule = group.scopes := by
  simp [ruleScopes, RuleGroup.toRule, get?, lookupEntry, stringArray, asString?,
    List.filterMap_map, Function.comp_def]

/-- The entries are as merging leaves them. -/
structure Settled (order : Table String Nat) (entries : List Json) : Prop where
  canonical : ∀ entry ∈ entries, ∃ group : RuleGroup,
    group.settings.KeySorted ∧ group.scopes.Nodup ∧ entry = group.toRule
  apart : (entries.map settingsText).Nodup
  ordered : entries.Pairwise fun a b => (priority order a).le (priority order b)

theorem settled_mergeRules (order : Table String Nat) (rules : List Json) :
    Settled order (mergeRules order rules) where
  canonical entry hentry := by
    obtain ⟨settings, scopes, hclass, rfl⟩ := (merges_mergeRules order rules).entry entry hentry
    exact ⟨⟨settings, scopes⟩, hclass.sorted, hclass.nodup, rfl⟩
  apart := by
    have hperm := (perm_mergeRules order rules).map settingsText
    rw [map_settingsText_groups] at hperm
    exact hperm.nodup_iff.mpr (rulesBySettings rules).nodup
  ordered := pairwise_mergeRules order rules

/-- The group of one entry in canonical form is that entry. -/
theorem toRule_addRule {group : RuleGroup} (hsorted : group.settings.KeySorted)
    (hnodup : group.scopes.Nodup) : (addRule group.toRule none).toRule = group.toRule := by
  rw [addRule, Option.getD_none, ruleSettings_toRule, ruleScopes_toRule, RuleGroup.addScopes_nil,
    canonical_eq_self hsorted, eraseDups_of_nodup hnodup]

theorem Settled.groups_eq (h : Settled order entries) :
    (rulesBySettings entries).values.map RuleGroup.toRule = entries := by
  have hentries := Table.entries_foldl_alter settingsText addRule entries .empty h.apart
  have hgroups : (rulesBySettings entries).entries = _ := hentries
  rw [Table.values, hgroups, show (Table.empty : Table String RuleGroup).entries = [] from rfl,
    List.nil_append, List.map_map, List.map_map]
  refine (List.map_congr_left fun entry hentry => ?_).trans (List.map_id' entries)
  obtain ⟨group, hsorted, hnodup, rfl⟩ := h.canonical entry hentry
  exact toRule_addRule hsorted hnodup

theorem Settled.mergeRules_eq (h : Settled order entries) : mergeRules order entries = entries := by
  rw [mergeRules, h.groups_eq]
  exact List.mergeSort_of_pairwise h.ordered

theorem mergeRules_mergeRules (order : Table String Nat) (rules : List Json) :
    mergeRules order (mergeRules order rules) = mergeRules order rules :=
  (settled_mergeRules order rules).mergeRules_eq

theorem mergeRules_nil (order : Table String Nat) : mergeRules order [] = [] :=
  List.mergeSort_nil

/-! ## The theme -/

theorem tokenColors_dedupe (order : Table String Nat) (theme : Json) :
    tokenColors (dedupe order theme).1 = mergeRules order (tokenColors theme) := by
  cases theme with
  | object members =>
      rw [dedupe, Json.set, tokenColors, get?, lookupEntry_alterEntries, if_pos rfl]
      rfl
  | _ =>
      -- no object: no token colours, before or after
      exact (mergeRules_nil order).symm

/-- Merging a merged theme changes nothing, and the report counts the same entries before and after
and in each block. -/
theorem dedupe_dedupe (order : Table String Nat) (theme : Json) :
    (dedupe order (dedupe order theme).1).1 = (dedupe order theme).1 ∧
    (dedupe order (dedupe order theme).1).2.before = (dedupe order theme).2.after ∧
    (dedupe order (dedupe order theme).1).2.after = (dedupe order theme).2.after ∧
    (dedupe order (dedupe order theme).1).2.byPriority = (dedupe order theme).2.byPriority := by
  have hcolors := tokenColors_dedupe order theme
  have hmerged : mergeRules order (tokenColors (dedupe order theme).1) =
      mergeRules order (tokenColors theme) := by
    rw [hcolors, mergeRules_mergeRules]
  refine ⟨?_, ?_, ?_, ?_⟩
  · calc (dedupe order (dedupe order theme).1).1
      _ = (dedupe order theme).1.set "tokenColors"
            (.array (mergeRules order (tokenColors (dedupe order theme).1))) := rfl
      _ = (dedupe order theme).1.set "tokenColors"
            (.array (mergeRules order (tokenColors theme))) := by rw [hmerged]
      _ = (dedupe order theme).1 := Json.set_set _ _ _ _
  · exact congrArg List.length hcolors
  · exact congrArg List.length hmerged
  · simp only [dedupe] at hmerged ⊢
    rw [hmerged]

end Theme

end Lexicolor
