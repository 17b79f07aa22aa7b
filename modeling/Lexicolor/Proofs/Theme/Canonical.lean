import Mathlib
import Lexicolor.Proofs.Json.Compact
import Lexicolor.Proofs.Json.RoundTrip
import Lexicolor.Theme.Dedupe

/-!
# The canonical form of values

Two values have the same text in canonical form if and only if they differ in
nothing but the order of the members of their objects.
-/

namespace Lexicolor

variable {α β : Type}

/-! ## Sorted tables -/

namespace SortedTable

variable {s t : SortedTable α} {f : α → β} {key : String} {b : β}

theorem mem_map_entries_iff :
    (key, b) ∈ t.entries.map (fun e => (e.1, f e.2)) ↔ (t.get? key).map f = some b := by
  simp only [List.mem_map, Option.map_eq_some_iff, get?_eq_some_iff]
  constructor
  · intro h
    obtain ⟨⟨k, a⟩, hmem, heq⟩ := h
    cases heq
    exact ⟨a, hmem, rfl⟩
  · intro h
    obtain ⟨a, hmem, rfl⟩ := h
    exact ⟨(key, a), hmem, rfl⟩

theorem pairwise_map_entries (t : SortedTable α) (f : α → β) :
    (t.entries.map fun e => (e.1, f e.2)).Pairwise fun e e' => e.1 < e'.1 :=
  List.pairwise_map.mpr (List.pairwise_map.mp t.sorted)

theorem map_entries_eq_iff :
    s.entries.map (fun e => (e.1, f e.2)) = t.entries.map (fun e => (e.1, f e.2)) ↔
      ∀ key, (s.get? key).map f = (t.get? key).map f := by
  constructor
  · intro h key
    ext b
    rw [← mem_map_entries_iff, ← mem_map_entries_iff, h]
  · intro h
    have hirrefl : Std.Irrefl fun e e' : String × β => e.1 < e'.1 :=
      ⟨fun e => String.lt_irrefl e.1⟩
    have hantisymm : Std.Antisymm fun e e' : String × β => e.1 < e'.1 :=
      ⟨fun e e' hlt hgt => absurd (String.lt_trans hlt hgt) (String.lt_irrefl _)⟩
    refine (pairwise_map_entries s f).eq_of_mem_iff (pairwise_map_entries t f) ?_
    intro e
    rw [mem_map_entries_iff, mem_map_entries_iff, h]

end SortedTable

theorem lookupEntry_map {κ : Type} [DecidableEq κ] (f : α → β) (key : κ) (entries : List (κ × α)) :
    lookupEntry key (entries.map fun e => (e.1, f e.2)) = (lookupEntry key entries).map f := by
  induction entries with
  | nil => rfl
  | cons e entries ih =>
      rw [List.map_cons, lookupEntry, lookupEntry, ih]
      split <;> rfl

/-! ## Values up to the order of members -/

namespace Json

/-- The value under a key; of a repeated key it is the last. -/
def member? (key : String) (members : List (String × Json)) : Option Json :=
  lookupEntry key members.reverse

/-- The values differ in the order of members only. Numbers are compared as they are written. -/
inductive Alike : Json → Json → Prop
  | null : Alike .null .null
  | bool (b : Bool) : Alike (.bool b) (.bool b)
  | number {m n : Number} (h : m.write = n.write) : Alike (.number m) (.number n)
  | string (s : String) : Alike (.string s) (.string s)
  | array {items items' : List Json} (hlength : items.length = items'.length)
      (h : ∀ (i : Nat) item item', items[i]? = some item → items'[i]? = some item' →
        Alike item item') :
      Alike (.array items) (.array items')
  | object {members members' : List (String × Json)}
      (hkeys : ∀ key, (member? key members).isSome = (member? key members').isSome)
      (h : ∀ key value value', member? key members = some value →
        member? key members' = some value' → Alike value value') :
      Alike (.object members) (.object members')

/-- The keys of all objects are in ascending order, each once. -/
inductive KeySorted : Json → Prop
  | null : KeySorted .null
  | bool (b : Bool) : KeySorted (.bool b)
  | number (n : Number) : KeySorted (.number n)
  | string (s : String) : KeySorted (.string s)
  | array {items : List Json} (h : ∀ item ∈ items, KeySorted item) : KeySorted (.array items)
  | object {members : List (String × Json)} (hkeys : (members.map Prod.fst).Pairwise (· < ·))
      (h : ∀ m ∈ members, KeySorted m.2) : KeySorted (.object members)

end Json

namespace Theme

open Json

theorem canonicalItems_eq_map (items : List Json) : canonicalItems items = items.map canonical := by
  induction items with
  | nil => rw [canonicalItems, List.map_nil]
  | cons item items ih => rw [canonicalItems, List.map_cons, ih]

theorem canonicalMembers_eq_map (members : List (String × Json)) :
    canonicalMembers members = members.map fun m => (m.1, canonical m.2) := by
  induction members with
  | nil => rw [canonicalMembers, List.map_nil]
  | cons m members ih => rw [canonicalMembers, List.map_cons, ih]

theorem get?_ofList_canonicalMembers (members : List (String × Json)) (key : String) :
    (SortedTable.ofList (canonicalMembers members)).get? key =
      (member? key members).map canonical := by
  rw [SortedTable.get?_ofList, canonicalMembers_eq_map, ← List.map_reverse, lookupEntry_map, member?]

/-! ## Canonical forms are sorted -/

theorem exists_member_of_canonical {members : List (String × Json)} {m : String × Json}
    (h : m ∈ (SortedTable.ofList (canonicalMembers members)).entries) :
    ∃ value, (m.1, value) ∈ members ∧ m.2 = canonical value := by
  have hget := SortedTable.get?_eq_some_iff.mpr h
  rw [get?_ofList_canonicalMembers, Option.map_eq_some_iff] at hget
  obtain ⟨value, hvalue, hm⟩ := hget
  exact ⟨value, List.mem_reverse.mp (mem_of_lookupEntry hvalue), hm.symm⟩

mutual

theorem keySorted_canonical : ∀ v : Json, KeySorted (canonical v)
  | .null => .null
  | .bool b => .bool b
  | .number n => .number n
  | .string s => .string s
  | .array items => by
      rw [canonical, canonicalItems_eq_map]
      exact .array (List.forall_mem_map.mpr (keySorted_canonicalItems items))
  | .object members => by
      rw [canonical]
      refine .object (SortedTable.sorted _) fun m hm => ?_
      obtain ⟨value, hvalue, heq⟩ := exists_member_of_canonical hm
      rw [heq]
      exact keySorted_canonicalMembers members _ hvalue

theorem keySorted_canonicalItems : ∀ items : List Json, ∀ item ∈ items, KeySorted (canonical item)
  | [] => by simp
  | item :: items =>
      List.forall_mem_cons.mpr ⟨keySorted_canonical item, keySorted_canonicalItems items⟩

theorem keySorted_canonicalMembers :
    ∀ members : List (String × Json), ∀ m ∈ members, KeySorted (canonical m.2)
  | [] => by simp
  | (_, value) :: members =>
      List.forall_mem_cons.mpr ⟨keySorted_canonical value, keySorted_canonicalMembers members⟩

end

/-- A sorted value is its own canonical form. -/
theorem canonical_eq_self {v : Json} (h : KeySorted v) : canonical v = v := by
  induction h with
  | null => rfl
  | bool | number | string => rfl
  | array _ ih =>
      rw [canonical, canonicalItems_eq_map, List.map_congr_left ih, List.map_id']
  | @object members hkeys _ ih =>
      have hmembers : canonicalMembers members = members := by
        rw [canonicalMembers_eq_map]
        refine (List.map_congr_left fun m hm => ?_).trans (List.map_id' members)
        rw [ih m hm]
      rw [canonical, hmembers]
      exact congrArg Json.object (SortedTable.ofList_entries ⟨members, hkeys⟩ ▸ rfl)

/-! ## Canonical forms with the same text -/

theorem compact_canonical_object_iff {members members' : List (String × Json)} :
    (canonical (.object members)).compact = (canonical (.object members')).compact ↔
      ∀ key, (member? key members).map (fun v => (canonical v).compact) =
        (member? key members').map fun v => (canonical v).compact := by
  rw [canonical, canonical, compact_object_inj, SortedTable.map_entries_eq_iff]
  simp only [get?_ofList_canonicalMembers, Option.map_map]
  rfl

theorem kind_canonical (v : Json) : (canonical v).kind = v.kind := by
  cases v <;> rfl

theorem kind_eq_of_compact_canonical {v w : Json}
    (h : (canonical v).compact = (canonical w).compact) : v.kind = w.kind := by
  rw [← kind_canonical v, ← kind_canonical w, kind_eq_of_compact h]

/-- Values whose canonical forms have the same text as that of the value are like it. -/
def Determined (v : Json) : Prop :=
  ∀ w, (canonical v).compact = (canonical w).compact → v.Alike w

theorem alike_array {items items' : List Json} (hitems : ∀ item ∈ items, Determined item)
    (h : (canonical (.array items)).compact = (canonical (.array items')).compact) :
    (Json.array items).Alike (.array items') := by
  rw [canonical, canonical, compact_array_inj, canonicalItems_eq_map, canonicalItems_eq_map] at h
  refine .array (by simpa using congrArg List.length h) ?_
  intro i item item' hitem hitem'
  apply hitems item (List.mem_of_getElem? hitem)
  have hi := congrArg (fun l => l[i]?) h
  simpa [hitem, hitem'] using hi

theorem alike_object {members members' : List (String × Json)}
    (hmembers : ∀ m ∈ members, Determined m.2)
    (h : (canonical (.object members)).compact = (canonical (.object members')).compact) :
    (Json.object members).Alike (.object members') := by
  rw [compact_canonical_object_iff] at h
  refine .object (fun key => ?_) ?_
  · simpa using congrArg Option.isSome (h key)
  · intro key value value' hvalue hvalue'
    have hmem := List.mem_reverse.mp (mem_of_lookupEntry hvalue)
    apply hmembers _ hmem
    have hkey := h key
    simpa [hvalue, hvalue'] using hkey

mutual

theorem determined : ∀ v : Json, Determined v
  | .null => by
      intro w h
      cases w with
      | null => exact .null
      | _ => cases kind_eq_of_compact_canonical h
  | .bool b => by
      intro w h
      cases w with
      | bool b' =>
          cases compact_bool_inj.mp h
          exact .bool b
      | _ => cases kind_eq_of_compact_canonical h
  | .number m => by
      intro w h
      cases w with
      | number n => exact .number h
      | _ => cases kind_eq_of_compact_canonical h
  | .string s => by
      intro w h
      cases w with
      | string s' =>
          cases compact_string_inj.mp h
          exact .string s
      | _ => cases kind_eq_of_compact_canonical h
  | .array items => by
      intro w h
      cases w with
      | array items' => exact alike_array (determined_items items) h
      | _ => cases kind_eq_of_compact_canonical h
  | .object members => by
      intro w h
      cases w with
      | object members' => exact alike_object (determined_members members) h
      | _ => cases kind_eq_of_compact_canonical h

theorem determined_items : ∀ items : List Json, ∀ item ∈ items, Determined item
  | [] => by simp
  | item :: items => List.forall_mem_cons.mpr ⟨determined item, determined_items items⟩

theorem determined_members : ∀ members : List (String × Json), ∀ m ∈ members, Determined m.2
  | [] => by simp
  | (_, value) :: members =>
      List.forall_mem_cons.mpr ⟨determined value, determined_members members⟩

end

theorem compact_canonical_of_alike {v w : Json} (h : v.Alike w) :
    (canonical v).compact = (canonical w).compact := by
  induction h with
  | null | bool | string => rfl
  | number h => exact h
  | @array items items' hlength _ ih =>
      rw [canonical, canonical, compact_array_inj, canonicalItems_eq_map, canonicalItems_eq_map,
        List.map_map, List.map_map]
      apply List.ext_getElem (by simpa using hlength)
      intro i hi hi'
      simp only [List.length_map] at hi hi'
      simpa using ih i _ _ (List.getElem?_eq_getElem hi) (List.getElem?_eq_getElem hi')
  | @object members members' hkeys _ ih =>
      -- the order of the keys is lost in the canonical form
      rw [compact_canonical_object_iff]
      intro key
      have hsome := hkeys key
      cases hvalue : member? key members with
      | none =>
          rw [hvalue] at hsome
          have hnone := Option.isSome_eq_false_iff.mp hsome.symm
          rw [Option.isNone_iff_eq_none.mp hnone]
      | some value =>
          rw [hvalue] at hsome
          obtain ⟨value', hvalue'⟩ := Option.isSome_iff_exists.mp hsome.symm
          rw [hvalue', Option.map_some, Option.map_some, ih key _ _ hvalue hvalue']

/-- The texts of canonical forms tell values apart just where they are not alike. -/
theorem compact_canonical_eq_iff {v w : Json} :
    (canonical v).compact = (canonical w).compact ↔ v.Alike w :=
  ⟨determined v w, compact_canonical_of_alike⟩

theorem alike_canonical (v : Json) : (canonical v).Alike v := by
  rw [← compact_canonical_eq_iff, canonical_eq_self (keySorted_canonical v)]

instance (v w : Json) : Decidable (v.Alike w) :=
  decidable_of_iff _ compact_canonical_eq_iff

end Theme

end Lexicolor
