import Mathlib
import Lexicolor.Proofs.Grouping
import Lexicolor.Proofs.Json.Documents

/-!
# Values without repeated keys

Every value that is read from a text has each key once in each of its objects,
whatever the text repeats.
-/

namespace Lexicolor.Json

variable {depth : Nat} {v : Json} {members : List (String × Json)}

/-- No object has a key twice. -/
inductive Distinct : Json → Prop
  | null : Distinct .null
  | bool (b : Bool) : Distinct (.bool b)
  | number (n : Number) : Distinct (.number n)
  | string (s : String) : Distinct (.string s)
  | array {items : List Json} (h : ∀ item ∈ items, Distinct item) : Distinct (.array items)
  | object {members : List (String × Json)} (hkeys : (members.map Prod.fst).Nodup)
      (h : ∀ m ∈ members, Distinct m.2) : Distinct (.object members)

theorem Distinct.get? {key : String} {value : Json} (h : v.Distinct)
    (hget : v.get? key = some value) : value.Distinct := by
  cases h with
  | object _ h => exact h _ (mem_of_lookupEntry hget)
  | _ => cases hget

theorem mergeMembers_eq_entries (members : List (String × Json)) :
    mergeMembers members = (Table.ofList members).entries := by
  have hempty : [] = (Table.empty : Table String Json).entries := rfl
  rw [mergeMembers, Table.ofList, hempty]
  refine List.foldl_hom Table.entries ?_
  exact fun _ _ => rfl

theorem distinct_mergeMembers (h : ∀ m ∈ members, m.2.Distinct) :
    (Json.object (mergeMembers members)).Distinct := by
  rw [mergeMembers_eq_entries]
  refine .object (Table.nodup _) fun m hm => ?_
  have hget := Table.get?_eq_some_iff.mpr hm
  rw [Table.get?_ofList] at hget
  exact h m (List.mem_reverse.mp (mem_of_lookupEntry hget))

mutual

theorem Node.distinct_of_toJson :
    ∀ (node : Node) {depth : Nat} {v : Json}, node.toJson depth = .ok v → v.Distinct
  | .null, _, _, h => by
      cases h
      exact .null
  | .bool b, _, _, h => by
      cases h
      exact .bool b
  | .number n, _, _, h => by
      obtain ⟨value, hvalue⟩ := ok_of_map h
      rw [Node.toJson, hvalue] at h
      cases h
      exact .number value
  | .string q, _, _, h => by
      obtain ⟨s, hs⟩ := ok_of_map h
      rw [Node.toJson, hs] at h
      cases h
      exact .string s
  | .array items _, depth, v, h => by
      cases depth with
      | zero => cases h
      | succ depth =>
          rw [Node.toJson] at h
          obtain ⟨vs, hitems, h⟩ := ok_of_bind h
          obtain ⟨_, -, h⟩ := ok_of_bind h
          cases h
          exact .array (distinct_of_itemsToJson items hitems)
  | .object members _, depth, v, h => by
      cases depth with
      | zero => cases h
      | succ depth =>
          rw [Node.toJson] at h
          obtain ⟨vs, hmembers, h⟩ := ok_of_bind h
          obtain ⟨_, -, h⟩ := ok_of_bind h
          cases h
          exact distinct_mergeMembers (distinct_of_membersToJson members hmembers)

theorem distinct_of_itemsToJson :
    ∀ (items : List Node) {depth : Nat} {vs : List Json}, itemsToJson depth items = .ok vs →
      ∀ v ∈ vs, v.Distinct
  | [], _, _, h => by
      cases h
      simp
  | item :: items, _, _, h => by
      rw [itemsToJson] at h
      obtain ⟨v, hitem, h⟩ := ok_of_bind h
      obtain ⟨vs, hitems, h⟩ := ok_of_bind h
      cases h
      exact List.forall_mem_cons.mpr
        ⟨item.distinct_of_toJson hitem, distinct_of_itemsToJson items hitems⟩

theorem distinct_of_membersToJson :
    ∀ (members : List (Quoted × Node)) {depth : Nat} {vs : List (String × Json)},
      membersToJson depth members = .ok vs → ∀ m ∈ vs, m.2.Distinct
  | [], _, _, h => by
      cases h
      simp
  | (_, value) :: members, _, _, h => by
      rw [membersToJson] at h
      obtain ⟨_, -, h⟩ := ok_of_bind h
      obtain ⟨v, hvalue, h⟩ := ok_of_bind h
      obtain ⟨vs, hmembers, h⟩ := ok_of_bind h
      cases h
      exact List.forall_mem_cons.mpr
        ⟨value.distinct_of_toJson hvalue, distinct_of_membersToJson members hmembers⟩

end

/-- What is read has no key twice. -/
theorem distinct_of_read {dialect : Dialect} {text : String} (h : read dialect text = .ok v) :
    v.Distinct := by
  obtain ⟨value, hvalue, h⟩ := ok_of_bind h
  split at h
  next => cases h
  next =>
    cases h
    exact Node.distinct_of_toJson _ hvalue

end Lexicolor.Json
