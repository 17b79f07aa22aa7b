import Mathlib
import Lexicolor.Proofs.Grouping
import Lexicolor.Theme.Rule

/-!
# Scopes and colours of an entry

An entry lists its scopes in one text or in an array of texts, and its settings
hold its foreground. What an entry says in another form counts as nothing.
-/

namespace Lexicolor

variable {rule : Json} {scope color : String} {place : Nat}

namespace Json

variable {v : Json} {s : String}

theorem asString?_eq_some_iff : v.asString? = some s ↔ v = .string s := by
  cases v <;> simp [asString?]

end Json

namespace Theme

open Json

/-! ## Scopes -/

/-- An entry lists the scope: as its only one, or among others. -/
def Lists (rule : Json) (scope : String) : Prop :=
  rule.get? "scope" = some (.string scope) ∨
    ∃ items, rule.get? "scope" = some (.array items) ∧ .string scope ∈ items

theorem mem_ruleScopes_iff : scope ∈ ruleScopes rule ↔ Lists rule scope := by
  unfold ruleScopes Lists
  split
  next h => simp [h, eq_comm]
  next items h => simp [h, List.mem_filterMap, asString?_eq_some_iff]
  next hstring harray => simp_all

/-- The place at which an entry lists the scope. -/
inductive ListsAt (rule : Json) (scope : String) : Nat → Prop
  | only (h : rule.get? "scope" = some (.string scope)) : ListsAt rule scope 0
  | among {items : List Json} {place : Nat} (h : rule.get? "scope" = some (.array items))
      (hitem : items[place]? = some (.string scope)) : ListsAt rule scope place

/-- The scopes of an entry with their places. -/
def placedScopes (rule : Json) : List (String × Nat) :=
  match rule.get? "scope" with
  | some (.string scope) => [(scope, 0)]
  | some (.array items) => items.zipIdx.filterMap fun (item, place) =>
      item.asString?.map fun scope => (scope, place)
  | _ => []

theorem map_fst_placedScopes (rule : Json) :
    (placedScopes rule).map Prod.fst = ruleScopes rule := by
  rw [placedScopes]
  split
  next h => simp [ruleScopes, h]
  next items h =>
    have hitems : ruleScopes rule = (items.zipIdx.map Prod.fst).filterMap asString? := by
      rw [ruleScopes, h, List.zipIdx_map_fst]
    rw [hitems, List.map_filterMap, List.filterMap_map]
    simp [Function.comp_def]
  next hstring harray => simp_all [ruleScopes]

theorem mem_placedScopes : (scope, place) ∈ placedScopes rule ↔ ListsAt rule scope place := by
  constructor
  · intro hmem
    unfold placedScopes at hmem
    split at hmem
    next h =>
      obtain ⟨rfl, rfl⟩ := Prod.mk.inj (List.mem_singleton.mp hmem)
      exact .only h
    next items h =>
      obtain ⟨⟨item, _⟩, hitem, hplace⟩ := List.mem_filterMap.mp hmem
      obtain ⟨_, hstring, heq⟩ := Option.map_eq_some_iff.mp hplace
      cases heq
      rw [asString?_eq_some_iff.mp hstring] at hitem
      exact .among h (List.mem_zipIdx_iff_getElem?.mp hitem)
    next => cases hmem
  · intro hplace
    cases hplace with
    | only h => simp [placedScopes, h]
    | among h hitem =>
        simp only [placedScopes, h, List.mem_filterMap, Prod.exists]
        exact ⟨_, _, List.mem_zipIdx_iff_getElem?.mpr hitem, rfl⟩

theorem pairwise_placedScopes (rule : Json) :
    (placedScopes rule).Pairwise fun a b => a.2 < b.2 := by
  unfold placedScopes
  split
  next => exact List.pairwise_singleton _ _
  next items _ =>
    rw [List.pairwise_filterMap]
    refine (pairwise_zipIdx items).imp fun {a b} hlt p hp q hq => ?_
    obtain ⟨_, -, rfl⟩ := Option.map_eq_some_iff.mp hp
    obtain ⟨_, -, rfl⟩ := Option.map_eq_some_iff.mp hq
    exact hlt
  next => exact List.Pairwise.nil

/-! ## Foregrounds -/

/-- The settings of an entry hold the foreground. -/
def HasForeground (rule : Json) (color : String) : Prop :=
  ∃ settings, rule.get? "settings" = some settings ∧
    settings.get? "foreground" = some (.string color)

theorem foreground?_eq_some_iff : foreground? rule = some color ↔ HasForeground rule color := by
  simp only [foreground?, Option.bind_eq_some_iff, asString?_eq_some_iff, HasForeground]
  constructor
  · intro ⟨value, ⟨settings, hsettings, hget⟩, hvalue⟩
    exact ⟨settings, hsettings, hvalue ▸ hget⟩
  · intro ⟨settings, hsettings, hget⟩
    exact ⟨_, ⟨settings, hsettings, hget⟩, rfl⟩

end Theme

end Lexicolor
