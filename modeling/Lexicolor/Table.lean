/-!
# Tables in insertion order

A table is a list of entries with pairwise distinct keys. Setting a key that is
present replaces its value where it stands; a new key goes to the end.
-/

namespace Lexicolor

variable {κ υ ω : Type}

/-- Entries with pairwise distinct keys, in the order in which the keys were first set. -/
structure Table (κ υ : Type) where
  entries : List (κ × υ)
  nodup : (entries.map Prod.fst).Nodup

@[ext] theorem Table.ext {s t : Table κ υ} (h : s.entries = t.entries) : s = t := by
  cases s; cases t; cases h; rfl

variable [DecidableEq κ]

/-- The entries after the value under `key` becomes `f` of what it was. -/
def alterEntries (key : κ) (f : Option υ → υ) : List (κ × υ) → List (κ × υ)
  | [] => [(key, f none)]
  | (k, v) :: rest =>
      if k = key then (k, f (some v)) :: rest else (k, v) :: alterEntries key f rest

/-- The value under the first entry whose key is `key`. -/
def lookupEntry (key : κ) : List (κ × υ) → Option υ
  | [] => none
  | (k, v) :: rest => if k = key then some v else lookupEntry key rest

theorem keys_alterEntries (key : κ) (f : Option υ → υ) (entries : List (κ × υ)) :
    (alterEntries key f entries).map Prod.fst =
      if key ∈ entries.map Prod.fst then entries.map Prod.fst
      else entries.map Prod.fst ++ [key] := by
  induction entries with
  | nil => rfl
  | cons entry rest ih =>
      obtain ⟨k, v⟩ := entry
      by_cases h : k = key
      · simp [alterEntries, h]
      · have hne : ¬ key = k := fun e => h e.symm
        by_cases hmem : key ∈ rest.map Prod.fst
        · simp [alterEntries, h, ih, hmem]
        · simp only [alterEntries, h, if_false, List.map_cons, ih, hmem]
          simp [hne, hmem]

theorem lookupEntry_alterEntries (key other : κ) (f : Option υ → υ) (entries : List (κ × υ)) :
    lookupEntry other (alterEntries key f entries) =
      if key = other then some (f (lookupEntry key entries)) else lookupEntry other entries := by
  induction entries with
  | nil => by_cases h : key = other <;> simp [alterEntries, lookupEntry, h]
  | cons entry rest ih =>
      obtain ⟨k, v⟩ := entry
      by_cases hk : k = key
      · subst hk
        by_cases h : k = other <;> simp [alterEntries, lookupEntry, h]
      · by_cases h : key = other
        · subst h
          simp [alterEntries, lookupEntry, hk, ih]
        · simp [alterEntries, lookupEntry, hk, ih, h]

theorem lookupEntry_eq_some_iff {key : κ} {value : υ} {entries : List (κ × υ)}
    (h : (entries.map Prod.fst).Nodup) :
    lookupEntry key entries = some value ↔ (key, value) ∈ entries := by
  induction entries with
  | nil => simp [lookupEntry]
  | cons entry rest ih =>
      obtain ⟨k, v⟩ := entry
      obtain ⟨hnot, hrest⟩ := List.nodup_cons.mp h
      by_cases hk : k = key
      · subst hk
        have hmem : (k, value) ∉ rest := fun hmem => hnot (List.mem_map.mpr ⟨_, hmem, rfl⟩)
        simp [lookupEntry, hmem, eq_comm]
      · simp [lookupEntry, hk, Ne.symm hk, ih hrest]

theorem mem_of_lookupEntry {key : κ} {entries : List (κ × υ)} {value : υ}
    (h : lookupEntry key entries = some value) : (key, value) ∈ entries := by
  induction entries with
  | nil => cases h
  | cons entry entries ih =>
      rw [lookupEntry] at h
      split at h
      next hkey =>
        cases h
        exact hkey ▸ List.mem_cons_self
      next => exact List.mem_cons_of_mem _ (ih h)

theorem lookupEntry_append (key : κ) (l l' : List (κ × υ)) :
    lookupEntry key (l ++ l') = (lookupEntry key l).or (lookupEntry key l') := by
  induction l with
  | nil => rfl
  | cons entry l ih =>
      by_cases h : entry.1 = key <;> simp [lookupEntry, h, ih]

theorem lookupEntry_zip {keys : List κ} (h : keys.Nodup) {key : κ}
    {k : Nat} (hk : keys[k]? = some key) (values : List υ) :
    lookupEntry key (keys.zip values) = values[k]? := by
  induction keys generalizing k values with
  | nil => simp at hk
  | cons first keys ih =>
      obtain ⟨hnot, hnodup⟩ := List.nodup_cons.mp h
      cases values with
      | nil => simp [lookupEntry]
      | cons value values =>
          cases k with
          | zero =>
              cases hk
              simp [lookupEntry]
          | succ k =>
              have hmem : key ∈ keys := List.mem_of_getElem? hk
              have hne : first ≠ key := fun heq => hnot (heq ▸ hmem)
              simp [lookupEntry, hne, ih hnodup hk values]

namespace Table

def empty : Table κ υ := ⟨[], by simp⟩

instance : Inhabited (Table κ υ) := ⟨empty⟩

def keys (t : Table κ υ) : List κ := t.entries.map Prod.fst

def values (t : Table κ υ) : List υ := t.entries.map Prod.snd

def size (t : Table κ υ) : Nat := t.entries.length

def isEmpty (t : Table κ υ) : Bool := t.entries.isEmpty

def get? (t : Table κ υ) (key : κ) : Option υ := lookupEntry key t.entries

/-- The value under `key` becomes `f` of what it was; an absent key goes to the end. -/
def alter (t : Table κ υ) (key : κ) (f : Option υ → υ) : Table κ υ where
  entries := alterEntries key f t.entries
  nodup := by
    rw [keys_alterEntries]
    split
    · exact t.nodup
    · rename_i h
      rw [List.nodup_append]
      refine ⟨t.nodup, by simp, ?_⟩
      intro a ha b hb
      rw [List.mem_singleton.mp hb]
      exact fun e => h (e ▸ ha)

def set (t : Table κ υ) (key : κ) (value : υ) : Table κ υ := t.alter key fun _ => value

/-- Sets the entries one after the other, so the last value of a repeated key stays. -/
def ofList (entries : List (κ × υ)) : Table κ υ :=
  entries.foldl (fun t entry => t.set entry.1 entry.2) empty

/-- The entries whose key and value are mapped to a new value. -/
def filterMap (t : Table κ υ) (f : κ → υ → Option ω) : Table κ ω where
  entries := t.entries.filterMap fun entry => (f entry.1 entry.2).map (Prod.mk entry.1)
  nodup := by
    have hsub : ((t.entries.filterMap fun entry =>
        (f entry.1 entry.2).map (Prod.mk entry.1)).map Prod.fst).Sublist
        (t.entries.map Prod.fst) := by
      induction t.entries with
      | nil => simp
      | cons entry rest ih =>
          cases h : f entry.1 entry.2 with
          | none => simpa [List.filterMap_cons, h] using ih.cons entry.1
          | some w => simpa [List.filterMap_cons, h] using ih.cons_cons entry.1
    exact hsub.nodup t.nodup

/-- The entries that satisfy `p`. -/
def filter (t : Table κ υ) (p : κ → υ → Bool) : Table κ υ :=
  t.filterMap fun k v => if p k v then some v else none

@[simp] theorem get?_empty (key : κ) : (empty : Table κ υ).get? key = none := rfl

theorem get?_eq_some_iff {t : Table κ υ} {key : κ} {value : υ} :
    t.get? key = some value ↔ (key, value) ∈ t.entries :=
  lookupEntry_eq_some_iff t.nodup

/-- Tables with the same entries, in whatever order, have the same values. -/
theorem get?_congr {s t : Table κ υ} (h : s.entries.Perm t.entries) (key : κ) :
    s.get? key = t.get? key :=
  Option.ext fun value => by rw [get?_eq_some_iff, get?_eq_some_iff, h.mem_iff]

theorem get?_filter (t : Table κ υ) (p : κ → υ → Bool) (key : κ) :
    (t.filter p).get? key = (t.get? key).filter (p key) := by
  refine Option.ext fun value => ?_
  rw [get?_eq_some_iff, Option.filter_eq_some_iff, get?_eq_some_iff]
  simp only [filter, filterMap, List.mem_filterMap, Option.map_eq_some_iff]
  constructor
  · rintro ⟨⟨k, v⟩, hmem, w, hw, heq⟩
    cases heq
    split at hw
    · cases hw
      exact ⟨hmem, ‹_›⟩
    · contradiction
  · rintro ⟨hmem, hp⟩
    exact ⟨(key, value), hmem, value, if_pos hp, rfl⟩

theorem get?_alter (t : Table κ υ) (key other : κ) (f : Option υ → υ) :
    (t.alter key f).get? other =
      if key = other then some (f (t.get? key)) else t.get? other :=
  lookupEntry_alterEntries key other f t.entries

@[simp] theorem get?_set_self (t : Table κ υ) (key : κ) (value : υ) :
    (t.set key value).get? key = some value := by
  simp [set, get?_alter]

theorem get?_set_of_ne (t : Table κ υ) {key other : κ} (value : υ) (h : key ≠ other) :
    (t.set key value).get? other = t.get? other := by
  simp [set, get?_alter, h]

theorem entries_alter_of_notMem {t : Table κ υ} {key : κ} (h : key ∉ t.keys)
    (f : Option υ → υ) : (t.alter key f).entries = t.entries ++ [(key, f none)] := by
  obtain ⟨entries, hnodup⟩ := t
  simp only [keys, alter] at h ⊢
  clear hnodup
  induction entries with
  | nil => rfl
  | cons entry entries ih =>
      obtain ⟨k, v⟩ := entry
      simp only [List.map_cons, List.mem_cons, not_or] at h
      simp [alterEntries, Ne.symm h.1, ih h.2]

theorem entries_set_of_notMem {t : Table κ υ} {key : κ}
    (h : key ∉ t.keys) (value : υ) : (t.set key value).entries = t.entries ++ [(key, value)] :=
  entries_alter_of_notMem h fun _ => value

end Table

end Lexicolor
