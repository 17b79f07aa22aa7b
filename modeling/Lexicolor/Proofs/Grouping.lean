import Mathlib
import Lexicolor.SortedTable
import Lexicolor.Table

/-!
# Grouping the items of a list by their keys

Tables that are altered for one item after the other: their keys stand in the
order of first use, and the value under a key comes from the items with that
key, in their order.
-/

namespace Lexicolor

variable {α κ υ : Type} [DecidableEq κ]

/-! ## First uses -/

/-- The members of a list that are not known before, each at its first place. -/
def fresh (known l : List κ) : List κ := (l.filter fun k => k ∉ known).eraseDups

theorem nodup_eraseDups (l : List κ) : l.eraseDups.Nodup := by
  -- the rest of the list is filtered before the next step
  induction hn : l.length using Nat.strongRecOn generalizing l with
  | _ n ih =>
      cases l with
      | nil => exact List.nodup_nil
      | cons k l =>
          rw [List.eraseDups_cons]
          refine List.nodup_cons.mpr ⟨?_, ih _ ?_ _ rfl⟩
          · simp [List.mem_eraseDups]
          · rw [← hn, List.length_cons]
            exact Nat.lt_succ_of_le (List.length_filter_le _ _)

theorem eraseDups_of_nodup {l : List κ} (h : l.Nodup) :
    l.eraseDups = l := by
  induction l with
  | nil => rfl
  | cons k l ih =>
      obtain ⟨hnot, hnodup⟩ := List.nodup_cons.mp h
      have hall : (l.filter fun other => !other == k) = l :=
        List.filter_eq_self.mpr fun other hmem => by
          simpa using fun heq : other = k => hnot (heq ▸ hmem)
      rw [List.eraseDups_cons, hall, ih hnodup]

/-- What is found first does not depend on repetitions. -/
theorem find?_eraseDups (q : κ → Bool) (l : List κ) : l.eraseDups.find? q = l.find? q := by
  induction hn : l.length using Nat.strongRecOn generalizing l with
  | _ n ih =>
      cases l with
      | nil => rfl
      | cons k l =>
          have hlt : (l.filter fun a => !a == k).length < n := by
            rw [← hn, List.length_cons]
            exact Nat.lt_succ_of_le (List.length_filter_le _ _)
          rw [List.eraseDups_cons, List.find?_cons, List.find?_cons, ih _ hlt _ rfl,
            List.find?_filter]
          cases hk : q k with
          | true => rfl
          | false =>
              have hq : (fun a => decide ((!a == k) ∧ q a)) = q := by
                funext a
                by_cases ha : a = k <;> simp [ha, hk]
              exact congrArg (l.find? ·) hq

/-- What is found first has the least place of all that would do. -/
theorem find?_eq_some_iff_idxOf {q : κ → Bool} {l : List κ} {k : κ} : l.find? q = some k ↔
    k ∈ l ∧ q k ∧ ∀ other ∈ l, q other → l.idxOf k ≤ l.idxOf other := by
  induction l with
  | nil => simp
  | cons a l ih =>
      rw [List.find?_cons]
      cases ha : q a with
      | true =>
          constructor
          · rintro ⟨⟩
            exact ⟨List.mem_cons_self, ha, by simp⟩
          · rintro ⟨-, -, hfirst⟩
            have hle := hfirst a List.mem_cons_self ha
            by_contra hne
            have hother : a ≠ k := fun heq => hne (congrArg some heq)
            rw [List.idxOf_cons_self, List.idxOf_cons_ne l hother] at hle
            exact Nat.not_succ_le_zero _ hle
      | false =>
          -- the first one does not do, so all places that count are one further on
          have hother {other : κ} (hq : q other) : a ≠ other := by
            rintro rfl
            rw [ha] at hq
            cases hq
          show l.find? q = some k ↔ _
          rw [ih]
          constructor
          · rintro ⟨hmem, hk, hfirst⟩
            refine ⟨List.mem_cons_of_mem a hmem, hk, fun other hmem' hq => ?_⟩
            rw [List.idxOf_cons_ne l (hother hk), List.idxOf_cons_ne l (hother hq)]
            exact Nat.succ_le_succ (hfirst other (List.mem_of_ne_of_mem (hother hq).symm hmem') hq)
          · rintro ⟨hmem, hk, hfirst⟩
            refine ⟨List.mem_of_ne_of_mem (hother hk).symm hmem, hk, fun other hmem' hq => ?_⟩
            have hle := hfirst other (List.mem_cons_of_mem a hmem') hq
            rw [List.idxOf_cons_ne l (hother hk), List.idxOf_cons_ne l (hother hq)] at hle
            exact Nat.le_of_succ_le_succ hle

/-- Members stand in the order of their first places. -/
theorem pairwise_eraseDups (l : List κ) :
    l.eraseDups.Pairwise fun a b => l.idxOf a < l.idxOf b := by
  rw [List.pairwise_iff_getElem]
  intro i j hi hj hlt
  have hnodup := nodup_eraseDups l
  have hne : l.eraseDups[i] ≠ l.eraseDups[j] := fun heq =>
    absurd (hnodup.getElem_inj_iff.mp heq) (Nat.ne_of_lt hlt)
  -- the earlier of the two is what is found first, in one list as in the other
  have hfind : l.eraseDups.find? (fun k => k = l.eraseDups[i] ∨ k = l.eraseDups[j]) =
      some l.eraseDups[i] := by
    rw [find?_eq_some_iff_idxOf]
    refine ⟨List.getElem_mem hi, by simp, fun other _ hother => ?_⟩
    rcases of_decide_eq_true hother with rfl | rfl
    · exact le_rfl
    · rw [hnodup.idxOf_getElem, hnodup.idxOf_getElem]
      exact hlt.le
  rw [find?_eraseDups, find?_eq_some_iff_idxOf] at hfind
  obtain ⟨hmem, -, hfirst⟩ := hfind
  have hle := hfirst l.eraseDups[j] (List.mem_eraseDups.mp (List.getElem_mem hj)) (by simp)
  exact Nat.lt_of_le_of_ne hle fun heq => hne ((List.idxOf_inj hmem).mp heq)

/-- The places of the members of a list ascend. -/
theorem pairwise_zipIdx (l : List α) : l.zipIdx.Pairwise fun a b => a.2 < b.2 := by
  rw [← List.pairwise_map, List.zipIdx_map_snd]
  exact List.pairwise_lt_range'

theorem fresh_nil_left (l : List κ) : fresh [] l = l.eraseDups := by
  simp [fresh]

theorem fresh_nil (known : List κ) : fresh known [] = [] := rfl

theorem fresh_cons_of_mem {known : List κ} {k : κ} (h : k ∈ known) (l : List κ) :
    fresh known (k :: l) = fresh known l := by
  simp [fresh, h]

theorem fresh_cons_of_notMem {known : List κ} {k : κ} (h : k ∉ known) (l : List κ) :
    fresh known (k :: l) = k :: fresh (known ++ [k]) l := by
  rw [fresh, List.filter_cons_of_pos (by simpa using h), List.eraseDups_cons, fresh,
    List.filter_filter]
  congr 2
  apply List.filter_congr
  intro a _
  by_cases ha : a = k <;> simp [ha]

/-! ## Alterations one after the other -/

/-- The value under a key after alterations for one item after the other, for every kind of table
whose alterations change the value under their key only. -/
theorem get_foldl_alter {T : Type} {get : T → κ → Option υ} {alter : T → κ → (Option υ → υ) → T}
    (hget : ∀ t key other f, get (alter t key f) other =
      if key = other then some (f (get t key)) else get t other)
    (key : α → κ) (f : α → Option υ → υ) (items : List α) (t : T) (k : κ) :
    get (items.foldl (fun t a => alter t (key a) (f a)) t) k =
      (items.filter fun a => key a = k).foldl (fun old a => some (f a old)) (get t k) := by
  induction items generalizing t with
  | nil => rfl
  | cons a items ih =>
      rw [List.foldl_cons, ih, hget]
      by_cases hk : key a = k <;> simp [hk]

/-- Of a repeated key the last value stays. -/
theorem get_foldl_set {T : Type} {get : T → κ → Option υ} {alter : T → κ → (Option υ → υ) → T}
    (hget : ∀ t key other f, get (alter t key f) other =
      if key = other then some (f (get t key)) else get t other)
    (entries : List (κ × υ)) (t : T) (k : κ) :
    get (entries.foldl (fun t entry => alter t entry.1 fun _ => entry.2) t) k =
      (lookupEntry k entries.reverse).or (get t k) := by
  induction entries generalizing t with
  | nil => rfl
  | cons entry entries ih =>
      rw [List.foldl_cons, ih, hget, List.reverse_cons, lookupEntry_append, Option.or_assoc]
      congr 1
      by_cases hk : entry.1 = k <;> simp [lookupEntry, hk]

/-- Collecting items gives nothing where there are none, and else all of them in order. -/
theorem foldl_collect {β : Type} (value : α → β) (items : List α) (old : Option (List β)) :
    items.foldl (fun old a => some (old.getD [] ++ [value a])) old =
      if items = [] then old else some (old.getD [] ++ items.map value) := by
  induction items generalizing old with
  | nil => rfl
  | cons a items ih =>
      rw [List.foldl_cons, ih]
      by_cases hitems : items = [] <;> simp [hitems]

/-- The values of the items with the key, if there is one. -/
def collected {β : Type} (key : α → κ) (value : α → β) (items : List α) (k : κ) :
    Option (List β) :=
  if items.filter (fun a => key a = k) = [] then none
  else some ((items.filter fun a => key a = k).map value)

theorem isSome_collected {β : Type} {key : α → κ} {value : α → β} {items : List α} {k : κ} :
    (collected key value items k).isSome ↔ ∃ a ∈ items, key a = k := by
  unfold collected
  split
  next h => simpa [List.filter_eq_nil_iff] using h
  next h => simpa [List.filter_eq_nil_iff] using h

theorem collected_eq_some {β : Type} {key : α → κ} {value : α → β} {items : List α} {k : κ}
    {l : List β} (h : collected key value items k = some l) :
    l ≠ [] ∧ ∀ v, v ∈ l ↔ ∃ a ∈ items, key a = k ∧ value a = v := by
  unfold collected at h
  split at h
  next => cases h
  next hne =>
    cases h
    refine ⟨by simpa using hne, fun v => ?_⟩
    simp [and_assoc]

/-- What is collected under a key stands in the order of the items. -/
theorem sublist_of_collected {β : Type} {key : α → κ} {value : α → β} {items : List α} {k : κ}
    {l : List β} (h : collected key value items k = some l) : l.Sublist (items.map value) := by
  unfold collected at h
  split at h
  next => cases h
  next =>
    cases h
    exact List.filter_sublist.map value

namespace Table

theorem keys_alter (t : Table κ υ) (key : κ) (f : Option υ → υ) :
    (t.alter key f).keys = if key ∈ t.keys then t.keys else t.keys ++ [key] :=
  keys_alterEntries key f t.entries

theorem keys_foldl_alter (key : α → κ) (f : α → Option υ → υ) (items : List α) (t : Table κ υ) :
    (items.foldl (fun t a => t.alter (key a) (f a)) t).keys =
      t.keys ++ fresh t.keys (items.map key) := by
  induction items generalizing t with
  | nil => simp [fresh_nil]
  | cons a items ih =>
      rw [List.foldl_cons, ih, keys_alter, List.map_cons]
      split
      next hmem => rw [fresh_cons_of_mem hmem]
      next hmem => rw [fresh_cons_of_notMem hmem, List.append_assoc, List.singleton_append]

/-- Items with distinct new keys go to the end, each under its own key. -/
theorem entries_foldl_alter (key : α → κ) (f : α → Option υ → υ) (items : List α) (t : Table κ υ)
    (h : (t.keys ++ items.map key).Nodup) :
    (items.foldl (fun t a => t.alter (key a) (f a)) t).entries =
      t.entries ++ items.map fun a => (key a, f a none) := by
  induction items generalizing t with
  | nil => simp
  | cons a items ih =>
      have hnew : key a ∉ t.keys := fun hmem =>
        (List.nodup_append.mp h).2.2 _ hmem _ List.mem_cons_self rfl
      have hentries := entries_alter_of_notMem hnew (f a)
      have hkeys : (t.alter (key a) (f a)).keys = t.keys ++ [key a] := by
        rw [keys_alter, if_neg hnew]
      rw [List.foldl_cons, ih, hentries, List.append_assoc]
      · rfl
      · rw [hkeys, List.append_assoc]
        exact h

theorem get?_ofList (entries : List (κ × υ)) (key : κ) :
    (ofList entries).get? key = lookupEntry key entries.reverse :=
  (get_foldl_set get?_alter entries empty key).trans Option.or_none

/-- A table whose values come from the keys has each key at its first place. -/
theorem entries_ofList_map (f : κ → υ) (l : List κ) :
    (ofList (l.map fun k => (k, f k))).entries = l.eraseDups.map fun k => (k, f k) := by
  let t := ofList (l.map fun k => (k, f k))
  have hkeys : t.keys = l.eraseDups := by
    have h := keys_foldl_alter Prod.fst (fun entry _ => entry.2) (l.map fun k => (k, f k)) empty
    rw [List.map_map] at h
    exact h.trans ((fresh_nil_left _).trans (congrArg List.eraseDups (List.map_id' l)))
  have hvalue : ∀ entry ∈ t.entries, (entry.1, f entry.1) = entry := by
    intro entry hmem
    have hget := get?_eq_some_iff.mpr (show (entry.1, entry.2) ∈ t.entries from hmem)
    rw [get?_ofList] at hget
    obtain ⟨k, -, hk⟩ := List.mem_map.mp (List.mem_reverse.mp (mem_of_lookupEntry hget))
    obtain ⟨rfl, hf⟩ := Prod.mk.inj hk
    exact Prod.ext rfl hf
  rw [← hkeys, keys, List.map_map]
  exact ((List.map_congr_left hvalue).trans (List.map_id' _)).symm

/-- The items collected under a key. -/
theorem get?_collect {β : Type} (key : α → κ) (value : α → β) (items : List α) (k : κ) :
    (items.foldl (fun t a => t.alter (key a) fun old => old.getD [] ++ [value a])
      (.empty : Table κ (List β))).get? k =
      collected key value items k := by
  rw [get_foldl_alter get?_alter key (fun a old => old.getD [] ++ [value a]), foldl_collect]
  simp [collected]

/-- One more item goes into one of the groups. -/
theorem perm_flatten_alter {β : Type} (t : Table κ (List β)) (key : κ) (v : β) :
    ((t.alter key fun old => old.getD [] ++ [v]).values.flatten).Perm (t.values.flatten ++ [v]) := by
  show (((alterEntries key (fun old => old.getD [] ++ [v]) t.entries).map Prod.snd).flatten).Perm
    ((t.entries.map Prod.snd).flatten ++ [v])
  induction t.entries with
  | nil => simp [alterEntries]
  | cons entry entries ih =>
      obtain ⟨k, group⟩ := entry
      by_cases hk : k = key
      · simp only [alterEntries, hk, if_true, Option.getD_some, List.map_cons, List.flatten_cons,
          List.append_assoc]
        exact List.perm_append_comm.append_left group
      · simp only [alterEntries, hk, if_false, List.map_cons, List.flatten_cons, List.append_assoc]
        exact ih.append_left group

/-- One more item does not change which items are the first of their groups, unless it is the
first of a new one. -/
theorem sublist_heads_alter {β : Type} {t : Table κ (List β)} (h : [] ∉ t.values) (key : κ)
    (v : β) : ((t.alter key fun old => old.getD [] ++ [v]).values.filterMap List.head?).Sublist
      (t.values.filterMap List.head? ++ [v]) := by
  obtain ⟨entries, hnodup⟩ := t
  show (((alterEntries key (fun old => old.getD [] ++ [v]) entries).map Prod.snd).filterMap
    List.head?).Sublist ((entries.map Prod.snd).filterMap List.head? ++ [v])
  replace h : [] ∉ entries.map Prod.snd := h
  clear hnodup
  induction entries with
  | nil => simp [alterEntries]
  | cons entry entries ih =>
      obtain ⟨k, group⟩ := entry
      rw [List.map_cons, List.mem_cons, not_or] at h
      cases group with
      | nil => exact absurd rfl h.1
      | cons first group =>
          by_cases hk : k = key
          · simp [alterEntries, hk]
          · simpa [alterEntries, hk] using ih h.2

theorem nil_notMem_values_alter {β : Type} {t : Table κ (List β)} (h : [] ∉ t.values) (key : κ)
    (v : β) : [] ∉ (t.alter key fun old => old.getD [] ++ [v]).values := by
  obtain ⟨entries, hnodup⟩ := t
  show [] ∉ (alterEntries key (fun old => old.getD [] ++ [v]) entries).map Prod.snd
  replace h : [] ∉ entries.map Prod.snd := h
  clear hnodup
  induction entries with
  | nil => simp [alterEntries]
  | cons entry entries ih =>
      obtain ⟨k, group⟩ := entry
      rw [List.map_cons, List.mem_cons, not_or] at h
      by_cases hk : k = key
      · simpa [alterEntries, hk] using h.2
      · simpa [alterEntries, hk, h.1] using ih h.2

/-- Every item is collected once. -/
theorem perm_flatten_collect {β : Type} (key : α → κ) (value : α → β) (items : List α)
    (t : Table κ (List β)) :
    ((items.foldl (fun t a => t.alter (key a) fun old => old.getD [] ++ [value a])
      t).values.flatten).Perm (t.values.flatten ++ items.map value) := by
  induction items generalizing t with
  | nil => simp
  | cons a items ih =>
      refine (ih _).trans ?_
      rw [List.map_cons, List.append_cons]
      exact (perm_flatten_alter t (key a) (value a)).append_right _

/-- The first items of the groups stand in the order of the items. -/
theorem sublist_heads_collect {β : Type} (key : α → κ) (value : α → β) (items : List α)
    {t : Table κ (List β)} (h : [] ∉ t.values) :
    ((items.foldl (fun t a => t.alter (key a) fun old => old.getD [] ++ [value a])
      t).values.filterMap List.head?).Sublist
        (t.values.filterMap List.head? ++ items.map value) := by
  induction items generalizing t with
  | nil => simp
  | cons a items ih =>
      refine (ih (nil_notMem_values_alter h _ _)).trans ?_
      rw [List.map_cons, List.append_cons]
      exact (sublist_heads_alter h (key a) (value a)).append_right _

end Table

theorem SortedTable.get?_ofList (entries : List (String × υ)) (key : String) :
    (SortedTable.ofList entries).get? key = lookupEntry key entries.reverse :=
  (get_foldl_set get?_alter entries empty key).trans Option.or_none

/-- The items collected under a key. -/
theorem SortedTable.get?_collect {β : Type} (key : α → String) (value : α → β) (items : List α)
    (k : String) : (items.foldl (fun t a => t.alter (key a) fun old => old.getD [] ++ [value a])
      (.empty : SortedTable (List β))).get? k =
      collected key value items k := by
  rw [get_foldl_alter get?_alter key (fun a old => old.getD [] ++ [value a]), foldl_collect]
  simp [collected]

/-- Values for new keys only: a key keeps its old value, or else gets the first one. -/
theorem SortedTable.get?_foldl_setNew (entries : List (String × υ)) (t : SortedTable υ)
    (key : String) : (entries.foldl (fun t entry => t.setNew entry.1 entry.2) t).get? key =
      (t.get? key).or (lookupEntry key entries) := by
  induction entries generalizing t with
  | nil => exact Option.or_none.symm
  | cons entry entries ih =>
      rw [List.foldl_cons, ih, SortedTable.setNew, get?_alter]
      by_cases hk : entry.1 = key
      · cases hget : t.get? key <;> simp [lookupEntry, hk, hget]
      · simp [lookupEntry, hk]

/-- Sorted tables with the same values are the same. -/
theorem SortedTable.ext_get? {s t : SortedTable υ} (h : ∀ key, s.get? key = t.get? key) : s = t := by
  have hpairwise (t : SortedTable υ) : t.entries.Pairwise fun a b => a.1 < b.1 :=
    List.pairwise_map.mp t.sorted
  have hnodup (t : SortedTable υ) : t.entries.Nodup := by
    refine (hpairwise t).imp ?_
    rintro a _ hlt rfl
    exact String.lt_irrefl a.1 hlt
  have hmem (entry : String × υ) : entry ∈ s.entries ↔ entry ∈ t.entries := by
    rw [← SortedTable.get?_eq_some_iff, ← SortedTable.get?_eq_some_iff, h]
  have hperm := (List.perm_ext_iff_of_nodup (hnodup s) (hnodup t)).mpr hmem
  refine SortedTable.ext (hperm.eq_of_pairwise (fun a b _ _ hab hba => ?_) (hpairwise s)
    (hpairwise t))
  exact absurd (String.lt_trans hab hba) (String.lt_irrefl a.1)

theorem SortedTable.mem_keys_iff {t : SortedTable υ} {k : String} :
    k ∈ t.keys ↔ (t.get? k).isSome := by
  rw [Option.isSome_iff_exists, SortedTable.keys, List.mem_map]
  constructor
  · rintro ⟨⟨_, value⟩, hmem, rfl⟩
    exact ⟨value, SortedTable.get?_eq_some_iff.mpr hmem⟩
  · rintro ⟨value, hget⟩
    exact ⟨_, SortedTable.get?_eq_some_iff.mp hget, rfl⟩

theorem SortedTable.mem_keys_foldl_set {entries : List (String × υ)} {k : String}
    (t : SortedTable υ) : k ∈ (entries.foldl (fun t entry => t.set entry.1 entry.2) t).keys ↔
      k ∈ t.keys ∨ k ∈ entries.map Prod.fst := by
  induction entries generalizing t with
  | nil => simp
  | cons entry rest ih =>
      rw [List.foldl_cons, ih, mem_keys_iff, SortedTable.set, get?_alter]
      by_cases hk : entry.1 = k
      · simp [hk]
      · simp [hk, mem_keys_iff, Ne.symm hk]

theorem SortedTable.mem_keys_ofList {entries : List (String × υ)} {k : String} :
    k ∈ (SortedTable.ofList entries).keys ↔ k ∈ entries.map Prod.fst := by
  rw [SortedTable.ofList, mem_keys_foldl_set]
  simp [SortedTable.keys, SortedTable.empty]

theorem mem_ascending {words : List String} {word : String} :
    word ∈ ascending words ↔ word ∈ words := by
  rw [ascending, SortedTable.mem_keys_ofList, List.map_map]
  simp

end Lexicolor
