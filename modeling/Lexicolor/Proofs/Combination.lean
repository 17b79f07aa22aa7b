import Mathlib
import Lexicolor.Catalog.ScopeTable
import Lexicolor.Proofs.Grouping

/-!
# Joined tables

Tables made from lists of entries with distinct keys have just these entries. So
joining the tables of keywords, prefixes and classifications keeps every entry
whose classification is known, with the scope of that classification.
-/

namespace Lexicolor

variable {κ υ ω : Type}

/-! ## Tables of distinct entries -/

theorem Table.entries_ofList [DecidableEq κ] {entries : List (κ × υ)}
    (h : (entries.map Prod.fst).Nodup) : (Table.ofList entries).entries = entries := by
  have hentries := Table.entries_foldl_alter Prod.fst (fun entry _ => entry.2) entries .empty h
  rw [List.map_id'] at hentries
  exact hentries

theorem Table.ofList_entries [DecidableEq κ] (t : Table κ υ) : Table.ofList t.entries = t :=
  Table.ext (Table.entries_ofList t.nodup)

theorem SortedTable.nodup (t : SortedTable υ) : (t.entries.map Prod.fst).Nodup := by
  apply t.sorted.imp
  rintro a b hlt rfl
  exact String.lt_irrefl a hlt

/-- A map of entries that keeps their keys drops keys only. -/
theorem sublist_keys {α β : Type} {f : κ × α → Option (κ × β)}
    (h : ∀ entry result, f entry = some result → result.1 = entry.1) (entries : List (κ × α)) :
    ((entries.filterMap f).map Prod.fst).Sublist (entries.map Prod.fst) := by
  induction entries with
  | nil => simp
  | cons entry entries ih =>
      cases hf : f entry with
      | none => simpa [List.filterMap_cons, hf] using ih.cons entry.1
      | some result =>
          rw [List.filterMap_cons, hf, List.map_cons, List.map_cons, h entry result hf]
          exact ih.cons_cons entry.1

theorem Table.sublist_keys_filterMap (t : Table κ υ) (f : κ → υ → Option ω) :
    (t.filterMap f).keys.Sublist t.keys := by
  refine sublist_keys (fun entry result h => ?_) t.entries
  obtain ⟨w, -, rfl⟩ := Option.map_eq_some_iff.mp h
  rfl

theorem Table.get?_filterMap [DecidableEq κ] (t : Table κ υ) (f : κ → υ → Option ω) (key : κ) :
    (t.filterMap f).get? key = (t.get? key).bind (f key) := by
  refine Option.ext fun w => ?_
  rw [get?_eq_some_iff, Option.bind_eq_some_iff]
  simp only [filterMap, List.mem_filterMap, Option.map_eq_some_iff]
  constructor
  · rintro ⟨⟨_, value⟩, hmem, w, hw, heq⟩
    cases heq
    exact ⟨value, get?_eq_some_iff.mpr hmem, hw⟩
  · rintro ⟨value, hget, hw⟩
    exact ⟨(key, value), get?_eq_some_iff.mp hget, w, hw, rfl⟩

/-- The table of what entries become, where the keys stay, has what the entries of the keys
become. -/
theorem SortedTable.get?_ofList_filterMap {α β : Type} {f : String × α → Option (String × β)}
    (h : ∀ entry result, f entry = some result → result.1 = entry.1) (t : SortedTable α)
    (key : String) (value : β) : (Table.ofList (t.entries.filterMap f)).get? key = some value ↔
      ∃ old, t.get? key = some old ∧ f (key, old) = some (key, value) := by
  rw [Table.get?_eq_some_iff, Table.entries_ofList ((sublist_keys h t.entries).nodup t.nodup),
    List.mem_filterMap]
  constructor
  · rintro ⟨⟨key', old⟩, hmem, hf⟩
    obtain rfl : key = key' := h _ _ hf
    exact ⟨old, get?_eq_some_iff.mpr hmem, hf⟩
  · rintro ⟨old, hget, hf⟩
    exact ⟨_, get?_eq_some_iff.mp hget, hf⟩

theorem Table.mem_values_iff [DecidableEq κ] {t : Table κ υ} {value : υ} :
    value ∈ t.values ↔ ∃ key, t.get? key = some value := by
  rw [values, List.mem_map]
  constructor
  · rintro ⟨⟨key, _⟩, hmem, rfl⟩
    exact ⟨key, get?_eq_some_iff.mpr hmem⟩
  · rintro ⟨key, hget⟩
    exact ⟨_, get?_eq_some_iff.mp hget, rfl⟩

theorem Table.mem_keys_iff [DecidableEq κ] {t : Table κ υ} {key : κ} :
    key ∈ t.keys ↔ ∃ value, t.get? key = some value := by
  rw [keys, List.mem_map]
  constructor
  · rintro ⟨⟨_, value⟩, hmem, rfl⟩
    exact ⟨value, get?_eq_some_iff.mpr hmem⟩
  · rintro ⟨value, hget⟩
    exact ⟨_, get?_eq_some_iff.mp hget, rfl⟩

theorem pairwise_ascending (words : List String) : (ascending words).Pairwise (· < ·) :=
  (SortedTable.ofList (words.map fun word => (word, ()))).sorted

/-- Ascending lists with the same members are the same. -/
theorem eq_of_pairwise_lt {words others : List String} (h : words.Pairwise (· < ·))
    (h' : others.Pairwise (· < ·)) (hmem : ∀ word, word ∈ words ↔ word ∈ others) :
    words = others := by
  have hperm : words.Perm others :=
    (List.perm_ext_iff_of_nodup (h.imp ne_of_lt) (h'.imp ne_of_lt)).mpr hmem
  exact hperm.eq_of_pairwise (fun _ _ _ _ hlt hgt => absurd hgt hlt.asymm) h h'

theorem ascending_congr {words others : List String}
    (hmem : ∀ word, word ∈ words ↔ word ∈ others) : ascending words = ascending others :=
  eq_of_pairwise_lt (pairwise_ascending words) (pairwise_ascending others) fun word => by
    rw [mem_ascending, mem_ascending, hmem]

namespace ScopeTable

variable (keywords : KeywordTable) (prefixes : PrefixTable) (classifications : ClassificationTable)

theorem get?_keywords_combine (word scope : String) :
    (combine keywords prefixes classifications).keywords.get? word = some scope ↔
      ∃ entry, keywords.get? word = some entry ∧ entry.isExample = false ∧
        classifications.get? entry.classification = some scope := by
  refine (SortedTable.get?_ofList_filterMap ?_ keywords word scope).trans ?_
  · rintro ⟨keyword, entry⟩ result hresult
    cases hexample : entry.isExample with
    | true => simp [hexample] at hresult
    | false =>
        simp only [hexample, Bool.false_eq_true, if_false] at hresult
        obtain ⟨scope, -, rfl⟩ := Option.map_eq_some_iff.mp hresult
        rfl
  · refine exists_congr fun entry => and_congr_right fun _ => ?_
    cases hexample : entry.isExample <;> simp [hexample]

theorem get?_prefixes_combine (name : String) (result : PrefixScope) :
    (combine keywords prefixes classifications).prefixes.get? name = some result ↔
      ∃ entry, prefixes.get? name = some entry ∧ entry.isVariable = result.isVariable ∧
        classifications.get? entry.classification = some result.scope := by
  refine (SortedTable.get?_ofList_filterMap ?_ prefixes name result).trans ?_
  · rintro ⟨name, entry⟩ result hresult
    obtain ⟨scope, -, rfl⟩ := Option.map_eq_some_iff.mp hresult
    rfl
  · refine exists_congr fun entry => and_congr_right fun _ => ?_
    obtain ⟨scope, isVariable⟩ := result
    simp [and_comm]

theorem pairwise_legend_combine :
    (combine keywords prefixes classifications).legend.Pairwise (· < ·) :=
  pairwise_ascending _

/-- The legend holds the scopes of the joined keywords and prefixes. -/
theorem mem_legend_combine (scope : String) :
    let table := combine keywords prefixes classifications
    scope ∈ table.legend ↔ (∃ word, table.keywords.get? word = some scope) ∨
      ∃ name entry, table.prefixes.get? name = some entry ∧ entry.scope = scope := by
  intro table
  show scope ∈ ascending (table.keywords.values ++ table.prefixes.values.map (·.scope)) ↔ _
  rw [mem_ascending, List.mem_append, Table.mem_values_iff, List.mem_map]
  refine or_congr_right ?_
  constructor
  · rintro ⟨entry, hmem, hscope⟩
    obtain ⟨name, hget⟩ := Table.mem_values_iff.mp hmem
    exact ⟨name, entry, hget, hscope⟩
  · rintro ⟨name, entry, hget, hscope⟩
    exact ⟨entry, Table.mem_values_iff.mpr ⟨name, hget⟩, hscope⟩

end ScopeTable

end Lexicolor
