import Mathlib
import Lexicolor.Proofs.Json.Places

/-!
# Members of an object

Setting a member leaves the others where they are. A key that is there keeps
its place, and a new one goes to the end.
-/

namespace Lexicolor.Json

variable {v w value : Json} {key other : String} {keys : List String}

/-- The value is an object. -/
def IsObject (v : Json) : Prop := ∃ members, v = .object members

/-- The keys of an object, in order. -/
def memberKeys (v : Json) : List String := v.parts.filterMap Prod.fst

/-- The value without its own members under the keys. -/
def without (keys : List String) : Json → Json
  | .object members => .object (members.filter fun m => m.1 ∉ keys)
  | other => other

theorem memberKeys_object (members : List (String × Json)) :
    (object members).memberKeys = members.map Prod.fst := by
  rw [memberKeys, parts, List.filterMap_map]
  show members.filterMap (some ∘ Prod.fst) = members.map Prod.fst
  rw [List.filterMap_eq_map]

theorem shell_without (keys : List String) (v : Json) : (v.without keys).shell = v.shell := by
  cases v <;> rfl

theorem parts_without (keys : List String) (v : Json) :
    (v.without keys).parts = v.parts.filter fun part => part.1.all fun key => key ∉ keys := by
  cases v with
  | array items => simp [without, parts, List.filter_map, Function.comp_def]
  | object members => simp [without, parts, List.filter_map, Function.comp_def]
  | _ => rfl

/-! ## Setting a member -/

theorem filter_alterEntries (h : key ∈ keys) (members : List (String × Json)) :
    (alterEntries key (fun _ => value) members).filter (fun m => m.1 ∉ keys) =
      members.filter fun m => m.1 ∉ keys := by
  induction members with
  | nil => simp [alterEntries, h]
  | cons m members ih =>
      obtain ⟨k, x⟩ := m
      by_cases hk : k = key
      · simp [alterEntries, hk, h]
      · rw [alterEntries, if_neg hk, List.filter_cons, List.filter_cons, ih]

theorem without_set (h : key ∈ keys) (v value : Json) :
    (v.set key value).without keys = v.without keys := by
  cases v with
  | object members => exact congrArg object (filter_alterEntries h members)
  | _ => rfl

theorem IsObject.of_shell (h : v.IsObject) (hshell : w.shell = v.shell) : w.IsObject := by
  obtain ⟨members, rfl⟩ := h
  cases w with
  | object others => exact ⟨others, rfl⟩
  | _ => cases hshell

namespace IsObject

theorem set (h : v.IsObject) (key : String) (value : Json) : (v.set key value).IsObject := by
  obtain ⟨members, rfl⟩ := h
  exact ⟨_, rfl⟩

theorem get?_set (h : v.IsObject) (key other : String) (value : Json) :
    (v.set key value).get? other = if key = other then some value else v.get? other := by
  obtain ⟨members, rfl⟩ := h
  exact lookupEntry_alterEntries key other (fun _ => value) members

theorem memberKeys_set (h : v.IsObject) (key : String) (value : Json) :
    (v.set key value).memberKeys =
      v.memberKeys ++ if key ∈ v.memberKeys then [] else [key] := by
  obtain ⟨members, rfl⟩ := h
  rw [Json.set, memberKeys_object, memberKeys_object, keys_alterEntries]
  split <;> simp

/-- Of the keys that are set, the new ones go to the end in the order of setting. -/
theorem memberKeys_foldl_set (h : v.IsObject) (settings : List (String × Json))
    (hnodup : (settings.map Prod.fst).Nodup) :
    (settings.foldl (fun v m => v.set m.1 m.2) v).memberKeys =
      v.memberKeys ++ (settings.map Prod.fst).filter fun key => key ∉ v.memberKeys := by
  induction settings generalizing v with
  | nil => simp
  | cons m settings ih =>
      obtain ⟨hfresh, hnodup⟩ := List.nodup_cons.mp hnodup
      have hrest : ((settings.map Prod.fst).filter fun key => key ∉ (v.set m.1 m.2).memberKeys) =
          (settings.map Prod.fst).filter fun key => key ∉ v.memberKeys := by
        refine List.filter_congr fun key hkey => ?_
        have hne : key ≠ m.1 := fun heq => hfresh (heq ▸ hkey)
        rw [h.memberKeys_set]
        split <;> simp [hne]
      rw [List.foldl_cons, ih (h.set m.1 m.2) hnodup, hrest, h.memberKeys_set, List.map_cons,
        List.filter_cons]
      by_cases hmem : m.1 ∈ v.memberKeys <;> simp [hmem]

end IsObject

/-! ## The first member under a key -/

/-- The number of a value's first member under the key, and the value of the member. -/
def FirstMember (key : String) (v : Json) (i : Nat) (value : Json) : Prop :=
  ∃ before after, v = .object (before ++ (key, value) :: after) ∧ before.length = i ∧
    key ∉ before.map Prod.fst

theorem get?_object {before : List (String × Json)} (h : key ∉ before.map Prod.fst)
    (value : Json) (after : List (String × Json)) :
    (object (before ++ (key, value) :: after)).get? key = some value := by
  have hbefore : lookupEntry key before = none := by
    cases hlookup : lookupEntry key before with
    | none => rfl
    | some value => exact absurd (List.mem_map_of_mem (mem_of_lookupEntry hlookup)) h
  rw [get?, lookupEntry_append, hbefore, Option.none_or, lookupEntry, if_pos rfl]

theorem set_object {before after : List (String × Json)} (h : key ∉ before.map Prod.fst)
    (new : Json) : (object (before ++ (key, value) :: after)).set key new =
      .object (before ++ (key, new) :: after) := by
  rw [Json.set]
  congr 1
  induction before with
  | nil => simp [alterEntries]
  | cons entry before ih =>
      rw [List.map_cons, List.mem_cons, not_or] at h
      simp [alterEntries, Ne.symm h.1, ih h.2]

theorem get?_eq_some_iff : v.get? key = some value ↔ ∃ i, FirstMember key v i value := by
  constructor
  · intro h
    cases v with
    | object members =>
        induction members with
        | nil => cases h
        | cons m members ih =>
            obtain ⟨k, x⟩ := m
            rw [get?, lookupEntry] at h
            by_cases hk : k = key
            · rw [if_pos hk] at h
              cases h
              exact ⟨0, [], members, by rw [hk, List.nil_append], rfl, List.not_mem_nil⟩
            · rw [if_neg hk] at h
              obtain ⟨i, before, after, heq, hi, hfirst⟩ := ih h
              cases heq
              refine ⟨i + 1, (k, x) :: before, after, rfl, by rw [List.length_cons, hi], ?_⟩
              simp only [List.map_cons, List.mem_cons, not_or]
              exact ⟨Ne.symm hk, hfirst⟩
    | _ => cases h
  · intro h
    obtain ⟨i, before, after, heq, -, hfirst⟩ := h
    rw [heq, get?_object hfirst]

theorem FirstMember.unique {i j : Nat} {value' : Json} (h : FirstMember key v i value)
    (h' : FirstMember key v j value') : i = j ∧ value = value' := by
  have hvalue : value = value' := Option.some.inj
    ((get?_eq_some_iff.mpr ⟨i, h⟩).symm.trans (get?_eq_some_iff.mpr ⟨j, h'⟩))
  obtain ⟨before, after, rfl, rfl, hfirst⟩ := h
  obtain ⟨before', after', heq, rfl, hfirst'⟩ := h'
  have hkeys := congrArg (fun members => (members.map Prod.fst).idxOf key) (object.inj heq)
  simp only [List.map_append, List.map_cons, List.idxOf_append_of_notMem hfirst,
    List.idxOf_append_of_notMem hfirst', List.idxOf_cons_self, List.length_map] at hkeys
  exact ⟨hkeys, hvalue⟩

/-- Lists that differ in one place only. -/
theorem getElem?_append_cons_congr {α : Type} {before after : List α} {x y : α} {i : Nat}
    (h : i ≠ before.length) : (before ++ x :: after)[i]? = (before ++ y :: after)[i]? := by
  have hset : before ++ x :: after = (before ++ y :: after).set before.length x := by simp
  rw [hset, List.getElem?_set_ne h.symm]

/-- Texts are replaced in an object by replacing them in one member. -/
theorem Replaces.set {ε : Type} {At : Part.Place → String → Prop}
    {convert : String → Except ε String} {label : Option String} {i : Nat} {new : Json}
    (Inner : Part.Place → String → Prop) (h : FirstMember key v i value)
    (hat : ∀ place text, At place text ↔ ∃ rest, place = i :: rest ∧ Inner rest text)
    (hinner : Replaces Inner convert (some key, value) (some key, new)) :
    Replaces At convert (label, v) (label, v.set key new) := by
  obtain ⟨before, after, rfl, rfl, hfirst⟩ := h
  rw [set_object hfirst]
  refine .of_parts (fun text htext => ?_) rfl (by simp [parts]) ?_ ?_
  · obtain ⟨rest, hplace, -⟩ := (hat _ _).mp htext
    cases hplace
  · intro i place text htext
    obtain ⟨rest, hplace, -⟩ := (hat _ _).mp htext
    cases hplace
    simp [parts]
  · intro i part other hpart hother
    simp only [parts, List.map_append, List.map_cons] at hpart hother
    -- at any place but that of the member, nothing is replaced
    by_cases hi : i = before.length
    · have hsame : (fun place text => At (i :: place) text) = Inner := by
        funext place text
        simp [hat, hi]
      rw [List.getElem?_append_right (by simp [hi]), hi] at hpart hother
      simp only [List.length_map, Nat.sub_self, List.getElem?_cons_zero,
        Option.some.injEq] at hpart hother
      rwa [hsame, ← hpart, ← hother]
    · have hsame : part = other := by
        rw [getElem?_append_cons_congr (by simpa using hi)] at hpart
        exact Option.some.inj (hpart.symm.trans hother)
      rw [hsame]
      refine .refl (fun place text htext => ?_) other
      obtain ⟨rest, hplace, -⟩ := (hat _ _).mp htext
      exact hi (List.cons.inj hplace).1

end Lexicolor.Json
