import Mathlib
import Lexicolor.Proofs.Combination
import Lexicolor.Settings.SemanticColors

/-!
# Scopes by their colours

Examples give a scope the colours of all identifiers that have it. A scope with
one colour gets a rule, one with more is in conflict, and no example is lost.
-/

namespace Lexicolor

/-- Ordering after each item is ordering at the end. -/
theorem foldl_ascending {α : Type} (value : α → String) (items : List α)
    (old : Option (List String)) :
    items.foldl (fun old a => some (ascending (old.getD [] ++ [value a]))) old =
      if items = [] then old else some (ascending (old.getD [] ++ items.map value)) := by
  induction items generalizing old with
  | nil => rfl
  | cons a items ih =>
      rw [List.foldl_cons, ih, if_neg (List.cons_ne_nil _ _)]
      split
      next hnil => simp [hnil]
      next =>
        refine congrArg some (ascending_congr fun word => ?_)
        simp [mem_ascending, or_assoc]

namespace Settings

variable {classifier : Classifier} {examples : List ColorExample} {scope color : String}
variable {s : Sighting} {l : List String}

/-- The colours given to identifiers that have the scope. -/
def colorsOf (classifier : Classifier) (examples : List ColorExample) (scope : String) :
    Set String :=
  {color | ∃ entry ∈ examples, entry.color = color ∧
    ∃ identifier ∈ entry.examples, classifier.classify identifier = some scope}

/-- The scopes of the identifiers that have one, in order. -/
def scopesOf (classifier : Classifier) (examples : List ColorExample) : List String :=
  (examples.flatMap ColorExample.examples).filterMap classifier.classify

/-- The identifiers with the colour that have the scope, in order. -/
def identifiersOf (classifier : Classifier) (examples : List ColorExample) (scope color : String) :
    List String :=
  ((examples.filter fun entry => entry.color = color).flatMap ColorExample.examples).filter
    fun identifier => classifier.classify identifier = some scope

/-! ## Sightings -/

theorem mem_sightings : s ∈ sightings classifier examples ↔
    ∃ entry ∈ examples, entry.color = s.color ∧ s.identifier ∈ entry.examples ∧
      classifier.classify s.identifier = some s.scope := by
  simp only [sightings, List.mem_flatMap, List.mem_filterMap, Option.map_eq_some_iff]
  constructor
  · rintro ⟨entry, hentry, identifier, hidentifier, scope, hscope, rfl⟩
    exact ⟨entry, hentry, rfl, hidentifier, hscope⟩
  · intro ⟨entry, hentry, hcolor, hidentifier, hscope⟩
    exact ⟨entry, hentry, s.identifier, hidentifier, s.scope, hscope, by rw [hcolor]⟩

theorem mem_colorsOf : color ∈ colorsOf classifier examples scope ↔
    ∃ s ∈ sightings classifier examples, s.scope = scope ∧ s.color = color := by
  simp only [mem_sightings]
  constructor
  · intro ⟨entry, hentry, hcolor, identifier, hidentifier, hscope⟩
    exact ⟨⟨scope, color, identifier⟩, ⟨entry, hentry, hcolor, hidentifier, hscope⟩, rfl, rfl⟩
  · rintro ⟨s, ⟨entry, hentry, hcolor, hidentifier, hscope⟩, rfl, rfl⟩
    exact ⟨entry, hentry, hcolor, s.identifier, hidentifier, hscope⟩

theorem map_scope_sightings :
    (sightings classifier examples).map Sighting.scope = scopesOf classifier examples := by
  rw [sightings, scopesOf, List.map_flatMap, List.filterMap_flatMap]
  refine congrArg (examples.flatMap ·) (funext fun entry => ?_)
  rw [List.map_filterMap]
  refine List.filterMap_congr fun identifier _ => ?_
  cases classifier.classify identifier <;> rfl

/-- Of one entry, all examples with the scope are seen under its colour or none are. -/
theorem map_identifier_entry (entry : ColorExample) :
    ((entry.examples.filterMap fun identifier => (classifier.classify identifier).map
      fun scope => (⟨scope, entry.color, identifier⟩ : Sighting)).filter fun s =>
        (s.scope, s.color) = (scope, color)).map Sighting.identifier =
      if entry.color = color then entry.examples.filter
        fun identifier => classifier.classify identifier = some scope else [] := by
  induction entry.examples with
  | nil => simp
  | cons identifier identifiers ih =>
      cases hscope : classifier.classify identifier with
      | none => simpa [List.filterMap_cons, hscope] using ih
      | some scope' =>
          by_cases hcolor : entry.color = color
          · by_cases hsame : scope' = scope <;>
              simpa [List.filterMap_cons, hscope, hcolor, hsame] using ih
          · simpa [List.filterMap_cons, hscope, hcolor] using ih

theorem map_identifier_sightings : ((sightings classifier examples).filter fun s =>
      (s.scope, s.color) = (scope, color)).map Sighting.identifier =
    identifiersOf classifier examples scope color := by
  induction examples with
  | nil => rfl
  | cons entry examples ih =>
      rw [sightings, List.flatMap_cons, List.filter_append, List.map_append, map_identifier_entry]
      show _ ++ ((sightings classifier examples).filter _).map _ = _
      rw [ih]
      by_cases hcolor : entry.color = color <;> simp [identifiersOf, hcolor]

theorem exists_collected (h : color ∈ colorsOf classifier examples scope) : ∃ found,
    collected Sighting.scope Sighting.color (sightings classifier examples) scope =
      some found := by
  obtain ⟨s, hs, hscope, -⟩ := mem_colorsOf.mp h
  exact Option.isSome_iff_exists.mp (isSome_collected.mpr ⟨s, hs, hscope⟩)

namespace SemanticColors

theorem get?_colorsByScope (items : List Sighting) (scope : String) :
    (colorsByScope items).get? scope =
      (collected Sighting.scope Sighting.color items scope).map ascending := by
  rw [colorsByScope, get_foldl_alter Table.get?_alter Sighting.scope
    (fun s old => ascending (old.getD [] ++ [s.color])), foldl_ascending]
  rw [collected]
  split <;> rfl

/-- The colours of a scope, if there are any, are listed in ascending order. -/
theorem get?_colorsByScope_eq_some :
    (colorsByScope (sightings classifier examples)).get? scope = some l ↔
      l ≠ [] ∧ l.Pairwise (· < ·) ∧
        ∀ color, color ∈ l ↔ color ∈ colorsOf classifier examples scope := by
  have hcolors {found} (h : collected Sighting.scope Sighting.color
      (sightings classifier examples) scope = some found) : ascending found ≠ [] ∧
        ∀ color, color ∈ ascending found ↔ color ∈ colorsOf classifier examples scope := by
    obtain ⟨hne, hmem⟩ := collected_eq_some h
    obtain ⟨first, hfirst⟩ := List.exists_mem_of_ne_nil found hne
    refine ⟨List.ne_nil_of_mem (mem_ascending.mpr hfirst), fun color => ?_⟩
    rw [mem_ascending, hmem, mem_colorsOf]
  rw [get?_colorsByScope, Option.map_eq_some_iff]
  constructor
  · rintro ⟨found, hfound, rfl⟩
    exact ⟨(hcolors hfound).1, pairwise_ascending found, (hcolors hfound).2⟩
  · intro ⟨hne, hpairwise, hmem⟩
    obtain ⟨color, hcolor⟩ := List.exists_mem_of_ne_nil l hne
    -- there is a list for the scope, and it can only be this one
    obtain ⟨found, hfound⟩ := exists_collected ((hmem color).mp hcolor)
    refine ⟨found, hfound, eq_of_pairwise_lt (pairwise_ascending found) hpairwise fun color => ?_⟩
    rw [(hcolors hfound).2, hmem]

theorem keys_colorsByScope : (colorsByScope (sightings classifier examples)).keys =
    (scopesOf classifier examples).eraseDups := by
  rw [colorsByScope, Table.keys_foldl_alter, map_scope_sightings]
  exact fresh_nil_left _

theorem single?_eq_some : single? l = some color ↔ l = [color] := by
  match l with
  | [] => simp [single?]
  | [_] => simp [single?]
  | _ :: _ :: _ => simp [single?]

/-! ## Rules and conflicts -/

/-- What the colours of the scopes are sorted into. -/
structure Sorts (classifier : Classifier) (examples : List ColorExample)
    (colors : SemanticColors) : Prop where
  rules_iff : ∀ scope color, colors.rules.get? scope = some color ↔
    colorsOf classifier examples scope = {color}
  conflicting_iff : ∀ scope found, colors.conflicting.get? scope = some found ↔
    (colorsOf classifier examples scope).Nontrivial ∧ found.Pairwise (· < ·) ∧
      ∀ color, color ∈ found ↔ color ∈ colorsOf classifier examples scope
  xor : ∀ scope, (colorsOf classifier examples scope).Nonempty →
    Xor (scope ∈ colors.rules.keys) (scope ∈ colors.conflicting.keys)
  neither : ∀ scope, colorsOf classifier examples scope = ∅ →
    scope ∉ colors.rules.keys ∧ scope ∉ colors.conflicting.keys
  rules_order : colors.rules.keys.Pairwise fun earlier later =>
    (scopesOf classifier examples).idxOf earlier < (scopesOf classifier examples).idxOf later
  conflicting_order : colors.conflicting.keys.Pairwise fun earlier later =>
    (scopesOf classifier examples).idxOf earlier < (scopesOf classifier examples).idxOf later
  examples_iff : ∀ scope color identifiers,
    colors.examples.get? (scope, color) = some identifiers ↔
      identifiers = identifiersOf classifier examples scope color ∧ identifiers ≠ []
  mem_examples : ∀ scope color, (scope, color) ∈ colors.examples.keys ↔
    color ∈ colorsOf classifier examples scope
  covered_nodup : colors.covered.Nodup
  mem_covered : ∀ scope, scope ∈ colors.covered ↔ scope ∈ scopesOf classifier examples

theorem get?_rules : (classified classifier examples).rules.get? scope = some color ↔
    colorsOf classifier examples scope = {color} := by
  rw [classified]
  dsimp only
  rw [Table.get?_filterMap, Option.bind_eq_some_iff]
  simp only [single?_eq_some, exists_eq_right, get?_colorsByScope_eq_some, Set.ext_iff]
  simp [iff_comm]

/-- Two colours or more make a list that is neither empty nor of one. -/
theorem nontrivial_iff {colors : Set String} (hpairwise : l.Pairwise (· < ·))
    (hmem : ∀ color, color ∈ l ↔ color ∈ colors) :
    colors.Nontrivial ↔ l ≠ [] ∧ (single? l).isNone := by
  match l with
  | [] =>
      have hempty : colors = ∅ := Set.eq_empty_iff_forall_notMem.mpr fun color hcolor =>
        List.not_mem_nil ((hmem color).mpr hcolor)
      simp [hempty]
  | [color] =>
      have hsingle : colors = {color} := Set.ext fun other => by simp [← hmem]
      simp [hsingle, single?]
  | first :: second :: rest =>
      have hlt : first < second := (List.pairwise_cons.mp hpairwise).1 second List.mem_cons_self
      have hnontrivial : colors.Nontrivial :=
        ⟨first, (hmem first).mp (by simp), second, (hmem second).mp (by simp), ne_of_lt hlt⟩
      simp [hnontrivial, single?]

theorem get?_conflicting : (classified classifier examples).conflicting.get? scope = some l ↔
    (colorsOf classifier examples scope).Nontrivial ∧ l.Pairwise (· < ·) ∧
      ∀ color, color ∈ l ↔ color ∈ colorsOf classifier examples scope := by
  rw [classified]
  dsimp only
  rw [Table.get?_filter, Option.filter_eq_some_iff, get?_colorsByScope_eq_some]
  constructor
  · intro ⟨⟨hne, hpairwise, hmem⟩, hmany⟩
    exact ⟨(nontrivial_iff hpairwise hmem).mpr ⟨hne, hmany⟩, hpairwise, hmem⟩
  · intro ⟨hmany, hpairwise, hmem⟩
    obtain ⟨hne, hnone⟩ := (nontrivial_iff hpairwise hmem).mp hmany
    exact ⟨⟨hne, hpairwise, hmem⟩, hnone⟩

theorem mem_keys_rules : scope ∈ (classified classifier examples).rules.keys ↔
    ∃ color, colorsOf classifier examples scope = {color} := by
  simp only [Table.mem_keys_iff, get?_rules]

theorem mem_keys_conflicting : scope ∈ (classified classifier examples).conflicting.keys ↔
    (colorsOf classifier examples scope).Nontrivial := by
  simp only [Table.mem_keys_iff, get?_conflicting]
  constructor
  · rintro ⟨found, hmany, -⟩
    exact hmany
  · intro hmany
    obtain ⟨color, hcolor⟩ := hmany.nonempty
    obtain ⟨found, hfound⟩ := exists_collected hcolor
    have hget := get?_colorsByScope (sightings classifier examples) scope
    rw [hfound, Option.map_some] at hget
    exact ⟨ascending found, hmany, (get?_colorsByScope_eq_some.mp hget).2⟩

theorem mem_scopesOf : scope ∈ scopesOf classifier examples ↔
    (colorsOf classifier examples scope).Nonempty := by
  rw [← map_scope_sightings, List.mem_map]
  constructor
  · intro ⟨s, hs, hscope⟩
    exact ⟨s.color, mem_colorsOf.mpr ⟨s, hs, hscope, rfl⟩⟩
  · intro ⟨color, hcolor⟩
    obtain ⟨s, hs, hscope, -⟩ := mem_colorsOf.mp hcolor
    exact ⟨s, hs, hscope⟩

theorem rule_or_conflict (h : (colorsOf classifier examples scope).Nonempty) :
    Xor (scope ∈ (classified classifier examples).rules.keys)
      (scope ∈ (classified classifier examples).conflicting.keys) := by
  rw [mem_keys_rules, mem_keys_conflicting]
  cases h.exists_eq_singleton_or_nontrivial with
  | inl hone =>
      refine .inl ⟨hone, fun hmany => ?_⟩
      obtain ⟨color, hcolor⟩ := hone
      exact Set.not_nontrivial_singleton (hcolor ▸ hmany)
  | inr hmany =>
      refine .inr ⟨hmany, fun ⟨color, hcolor⟩ => ?_⟩
      exact Set.not_nontrivial_singleton (hcolor ▸ hmany)

/-- A table of some of the scopes has them in order of their first sighting. -/
theorem pairwise_keys {υ : Type} (f : String → List String → Option υ) :
    ((colorsByScope (sightings classifier examples)).filterMap f).keys.Pairwise
      fun earlier later => (scopesOf classifier examples).idxOf earlier <
        (scopesOf classifier examples).idxOf later := by
  have hsublist := Table.sublist_keys_filterMap (colorsByScope (sightings classifier examples)) f
  rw [keys_colorsByScope] at hsublist
  exact (pairwise_eraseDups _).sublist hsublist

theorem get?_examples : (classified classifier examples).examples.get? (scope, color) =
    collected (fun s : Sighting => (s.scope, s.color)) Sighting.identifier
      (sightings classifier examples) (scope, color) :=
  Table.get?_collect (fun s : Sighting => (s.scope, s.color)) Sighting.identifier _ _

theorem get?_examples_eq_some :
    (classified classifier examples).examples.get? (scope, color) = some l ↔
      l = identifiersOf classifier examples scope color ∧ l ≠ [] := by
  have hmap := @map_identifier_sightings classifier examples scope color
  rw [get?_examples, collected, hmap]
  split
  next hnone =>
    rw [hnone, List.map_nil] at hmap
    simp [← hmap]
  next hsome =>
    have hne : identifiersOf classifier examples scope color ≠ [] :=
      hmap ▸ fun hnil => hsome (List.map_eq_nil_iff.mp hnil)
    constructor
    · rintro ⟨⟩
      exact ⟨rfl, hne⟩
    · rintro ⟨rfl, -⟩
      rfl

/-- Each scope is sorted by its colours, and each example is kept under its scope and colour. -/
theorem classified_sorts (classifier : Classifier) (examples : List ColorExample) :
    Sorts classifier examples (classified classifier examples) where
  rules_iff _ _ := get?_rules
  conflicting_iff _ _ := get?_conflicting
  xor _ := rule_or_conflict
  neither scope hnone := by
    rw [mem_keys_rules, mem_keys_conflicting, hnone]
    exact ⟨fun ⟨color, hcolor⟩ => Set.singleton_ne_empty color hcolor.symm,
      Set.not_nontrivial_empty⟩
  rules_order := pairwise_keys _
  conflicting_order := pairwise_keys _
  examples_iff _ _ _ := get?_examples_eq_some
  mem_examples scope color := by
    rw [Table.mem_keys_iff, ← Option.isSome_iff_exists, get?_examples, isSome_collected,
      mem_colorsOf]
    simp
  covered_nodup := by
    refine List.nodup_append.mpr ⟨Table.nodup _, Table.nodup _, ?_⟩
    rintro scope hrule _ hconflict rfl
    obtain ⟨color, hcolor⟩ := mem_keys_rules.mp hrule
    exact Set.not_nontrivial_singleton (hcolor ▸ mem_keys_conflicting.mp hconflict)
  mem_covered scope := by
    rw [covered, List.mem_append, mem_scopesOf]
    constructor
    · intro h
      cases h with
      | inl hrule =>
          obtain ⟨color, hcolor⟩ := mem_keys_rules.mp hrule
          exact hcolor ▸ Set.singleton_nonempty color
      | inr hconflict => exact (mem_keys_conflicting.mp hconflict).nonempty
    · intro h
      exact (rule_or_conflict h).or

end SemanticColors

end Settings

end Lexicolor
