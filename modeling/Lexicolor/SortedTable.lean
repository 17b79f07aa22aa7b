/-!
# Tables sorted by key

A sorted table holds its entries in strictly ascending order of their keys, so
two tables with the same entries are equal whatever the order of insertion.
Strings compare by code points.
-/

namespace Lexicolor

variable {υ ω : Type}

/-- Puts an entry at its place; the value of a key that is present becomes `f` of it. -/
def alterSorted (key : String) (f : Option υ → υ) : List (String × υ) → List (String × υ)
  | [] => [(key, f none)]
  | (k, v) :: rest =>
      if key < k then (key, f none) :: (k, v) :: rest
      else if k = key then (k, f (some v)) :: rest
      else (k, v) :: alterSorted key f rest

theorem mem_keys_alterSorted {key : String} {f : Option υ → υ} {entries : List (String × υ)}
    {k : String} (h : k ∈ (alterSorted key f entries).map Prod.fst) :
    k = key ∨ k ∈ entries.map Prod.fst := by
  induction entries with
  | nil => exact Or.inl (by simpa [alterSorted] using h)
  | cons entry rest ih =>
      obtain ⟨k', v⟩ := entry
      rw [alterSorted] at h
      split at h
      · rcases List.mem_cons.mp h with rfl | h
        · exact Or.inl rfl
        · exact Or.inr h
      · split at h
        · exact Or.inr h
        · rcases List.mem_cons.mp h with rfl | h
          · exact Or.inr (by simp)
          · exact (ih h).imp id (List.mem_cons_of_mem _)

theorem pairwise_alterSorted (key : String) (f : Option υ → υ) {entries : List (String × υ)}
    (h : (entries.map Prod.fst).Pairwise (· < ·)) :
    ((alterSorted key f entries).map Prod.fst).Pairwise (· < ·) := by
  induction entries with
  | nil => simp [alterSorted]
  | cons entry rest ih =>
      obtain ⟨k, v⟩ := entry
      obtain ⟨hk, hrest⟩ := List.pairwise_cons.mp h
      rw [alterSorted]
      split
      · rename_i hlt
        refine List.pairwise_cons.mpr ⟨?_, h⟩
        intro other hother
        rcases List.mem_cons.mp hother with rfl | hother
        · exact hlt
        · exact String.lt_trans hlt (hk other hother)
      · rename_i hnot
        split
        · exact h
        · rename_i hne
          refine List.pairwise_cons.mpr ⟨?_, ih hrest⟩
          intro other hother
          rcases mem_keys_alterSorted hother with rfl | hother
          · exact Std.lt_of_le_of_ne (String.not_lt.mp hnot) hne
          · exact hk other hother

/-- The value under the first entry whose key is `key`. -/
def findEntry (key : String) (entries : List (String × υ)) : Option υ :=
  (entries.find? fun entry => entry.1 = key).map Prod.snd

theorem findEntry_eq_none {key : String} {entries : List (String × υ)}
    (h : ∀ k ∈ entries.map Prod.fst, key < k) : findEntry key entries = none := by
  rw [findEntry, Option.map_eq_none_iff, List.find?_eq_none]
  intro entry hmem heq
  have hlt := h entry.1 (List.mem_map.mpr ⟨entry, hmem, rfl⟩)
  rw [of_decide_eq_true heq] at hlt
  exact String.lt_irrefl key hlt

theorem findEntry_alterSorted (key other : String) (f : Option υ → υ)
    {entries : List (String × υ)} (h : (entries.map Prod.fst).Pairwise (· < ·)) :
    findEntry other (alterSorted key f entries) =
      if key = other then some (f (findEntry key entries)) else findEntry other entries := by
  induction entries with
  | nil => by_cases hkey : key = other <;> simp [alterSorted, findEntry, hkey]
  | cons entry rest ih =>
      obtain ⟨k, v⟩ := entry
      obtain ⟨hk, hrest⟩ := List.pairwise_cons.mp h
      rw [alterSorted]
      split
      · rename_i hlt
        -- the keys ascend, so a smaller key is nowhere in the rest
        have hnone : findEntry key ((k, v) :: rest) = none := by
          refine findEntry_eq_none fun k' hk' => ?_
          rcases List.mem_cons.mp hk' with rfl | hk'
          · exact hlt
          · exact String.lt_trans hlt (hk k' hk')
        rw [hnone]
        by_cases hkey : key = other <;> simp [findEntry, hkey]
      · split
        · rename_i heq
          subst heq
          by_cases hkey : k = other <;> simp [findEntry, hkey]
        · rename_i hne
          have hstep (k' : String) (l : List (String × υ)) :
              findEntry k' ((k, v) :: l) = if k = k' then some v else findEntry k' l := by
            by_cases hk' : k = k' <;> simp [findEntry, hk']
          rw [hstep, ih hrest, hstep, hstep, if_neg hne]
          by_cases hkey : key = other
          · subst hkey
            simp [hne]
          · simp [hkey]

/-- Entries in strictly ascending order of their keys. -/
structure SortedTable (υ : Type) where
  entries : List (String × υ)
  sorted : (entries.map Prod.fst).Pairwise (· < ·)

namespace SortedTable

@[ext] theorem ext {s t : SortedTable υ} (h : s.entries = t.entries) : s = t := by
  cases s; cases t; cases h; rfl

def empty : SortedTable υ := ⟨[], by simp⟩

instance : Inhabited (SortedTable υ) := ⟨empty⟩

def keys (t : SortedTable υ) : List String := t.entries.map Prod.fst

def values (t : SortedTable υ) : List υ := t.entries.map Prod.snd

def size (t : SortedTable υ) : Nat := t.entries.length

def get? (t : SortedTable υ) (key : String) : Option υ := findEntry key t.entries

/-- The value under `key` becomes `f` of what it was. -/
def alter (t : SortedTable υ) (key : String) (f : Option υ → υ) : SortedTable υ :=
  ⟨alterSorted key f t.entries, pairwise_alterSorted key f t.sorted⟩

def set (t : SortedTable υ) (key : String) (value : υ) : SortedTable υ :=
  t.alter key fun _ => value

/-- Sets the value only where the key is absent. -/
def setNew (t : SortedTable υ) (key : String) (value : υ) : SortedTable υ :=
  t.alter key fun old => old.getD value

/-- Sets the entries one after the other, so the last value of a repeated key stays. -/
def ofList (entries : List (String × υ)) : SortedTable υ :=
  entries.foldl (fun t entry => t.set entry.1 entry.2) empty

@[simp] theorem get?_empty (key : String) : (empty : SortedTable υ).get? key = none := rfl

theorem get?_alter (t : SortedTable υ) (key other : String) (f : Option υ → υ) :
    (t.alter key f).get? other =
      if key = other then some (f (t.get? key)) else t.get? other :=
  findEntry_alterSorted key other f t.sorted

theorem get?_eq_some_iff {t : SortedTable υ} {key : String} {value : υ} :
    t.get? key = some value ↔ (key, value) ∈ t.entries := by
  rw [get?, findEntry, Option.map_eq_some_iff]
  constructor
  · rintro ⟨⟨k, v⟩, hfind, rfl⟩
    have heq : k = key := by simpa using List.find?_some hfind
    exact heq ▸ List.mem_of_find?_eq_some hfind
  · intro hmem
    obtain ⟨before, after, hentries⟩ := List.append_of_mem hmem
    have hsorted := t.sorted
    rw [hentries, List.map_append, List.pairwise_append] at hsorted
    refine ⟨(key, value), ?_, rfl⟩
    rw [hentries, List.find?_append]
    have hnone : before.find? (fun entry => decide (entry.1 = key)) = none := by
      rw [List.find?_eq_none]
      intro entry hentry heq
      have hlt := hsorted.2.2 entry.1 (List.mem_map.mpr ⟨entry, hentry, rfl⟩) key (by simp)
      rw [of_decide_eq_true heq] at hlt
      exact String.lt_irrefl key hlt
    simp [hnone]

end SortedTable

/-- The members of a list in strictly ascending order, each once. -/
def ascending (words : List String) : List String :=
  (SortedTable.ofList (words.map fun word => (word, ()))).keys

end Lexicolor
