import Mathlib
import Lexicolor.Catalog.ScopeTable
import Lexicolor.Proofs.Combination
import Lexicolor.Proofs.Json.Texts

/-!
# Tables from their own texts

Reading the text of a table gives the table. A decoder that undoes an encoding
of the elements also undoes the encoding of lists, tables and records of them.
-/

namespace Lexicolor

variable {α β : Type}

/-! ## Sorted tables -/

theorem alterSorted_of_lt {key : String} {f : Option α → α} {entries : List (String × α)}
    (h : ∀ k ∈ entries.map Prod.fst, k < key) :
    alterSorted key f entries = entries ++ [(key, f none)] := by
  induction entries with
  | nil => rfl
  | cons entry entries ih =>
      rw [List.map_cons, List.forall_mem_cons] at h
      rw [alterSorted, if_neg (String.lt_asymm h.1), if_neg (String.ne_of_lt h.1), ih h.2]
      rfl

theorem SortedTable.entries_foldl_set {entries : List (String × α)} {t : SortedTable α}
    (h : ((t.entries ++ entries).map Prod.fst).Pairwise (· < ·)) :
    (entries.foldl (fun t entry => t.set entry.1 entry.2) t).entries = t.entries ++ entries := by
  induction entries generalizing t with
  | nil => simp
  | cons entry entries ih =>
      have hset : (t.set entry.1 entry.2).entries = t.entries ++ [entry] := by
        apply alterSorted_of_lt
        intro k hk
        rw [List.map_append, List.pairwise_append] at h
        exact h.2.2 k hk entry.1 List.mem_cons_self
      rw [List.foldl_cons, ih, hset, List.append_assoc]
      · rfl
      · rw [hset, List.append_assoc]
        exact h

theorem SortedTable.ofList_entries (t : SortedTable α) : SortedTable.ofList t.entries = t :=
  SortedTable.ext (SortedTable.entries_foldl_set t.sorted)

namespace Json

variable {decoder : Decoder α} {encode : α → Json} {encodeAt : String → α → Json} {depth : Nat}

/-! ## Lists and tables -/

theorem plainItems_map {items : List α} (h : ∀ a, plain (encode a)) :
    plainItems (items.map encode) := by
  induction items with
  | nil => rfl
  | cons a items ih => rw [List.map_cons, plainItems, h a, ih, Bool.and_true]

theorem plainMembers_map {entries : List (String × α)} (h : ∀ key a, plain (encodeAt key a)) :
    plainMembers (entries.map fun (key, a) => (key, encodeAt key a)) := by
  induction entries with
  | nil => rfl
  | cons entry entries ih =>
      rw [List.map_cons, plainMembers, h entry.1 entry.2, ih, Bool.and_true]

theorem plain_string (s : String) : plain (.string s) := rfl

theorem plain_ofStrings (entries : List (String × String)) : plain (.ofStrings entries) :=
  plainMembers_map fun _ => plain_string

namespace Decoder

@[simp] theorem string_nodeOf (s : String) : Decoder.string depth (nodeOf (.string s)) = .ok s :=
  text_quotedOf s

@[simp] theorem bool_nodeOf (b : Bool) : Decoder.bool depth (nodeOf (.bool b)) = .ok b := rfl

theorem items_map (h : ∀ a, decoder depth (nodeOf (encode a)) = .ok a) (items : List α) :
    Decoder.items decoder depth (itemNodes (items.map encode)) = .ok items := by
  induction items with
  | nil => rfl
  | cons a items ih =>
      rw [List.map_cons, itemNodes, Decoder.items, h a, ih]
      rfl

theorem entries_map (h : ∀ key a, decoder depth (nodeOf (encodeAt key a)) = .ok a)
    (entries : List (String × α)) :
    Decoder.entries decoder depth
      (memberNodes (entries.map fun (key, a) => (key, encodeAt key a))) = .ok entries := by
  induction entries with
  | nil => rfl
  | cons entry entries ih =>
      rw [List.map_cons, memberNodes, Decoder.entries, text_quotedOf, h entry.1 entry.2, ih]
      rfl

/-- A decoder of lists undoes an encoding of the elements. -/
theorem list_nodeOf (h : ∀ a, decoder depth (nodeOf (encode a)) = .ok a) (items : List α) :
    Decoder.list decoder (depth + 1) (nodeOf (.array (items.map encode))) = .ok items := by
  rw [nodeOf, Decoder.list, items_map h]
  rfl

theorem members_nodeOf (h : ∀ key a, decoder depth (nodeOf (encodeAt key a)) = .ok a)
    (entries : List (String × α)) :
    Decoder.members decoder (depth + 1)
      (nodeOf (.object (entries.map fun (key, a) => (key, encodeAt key a)))) = .ok entries := by
  rw [nodeOf, Decoder.members, entries_map h]
  rfl

/-- A decoder of tables undoes an encoding of the values, and keeps the order of the keys. -/
theorem table_nodeOf (h : ∀ key a, decoder depth (nodeOf (encodeAt key a)) = .ok a)
    (t : Table String α) :
    Decoder.table decoder (depth + 1)
      (nodeOf (.object (t.entries.map fun (key, a) => (key, encodeAt key a)))) = .ok t := by
  rw [Decoder.table, members_nodeOf h]
  exact congrArg Except.ok t.ofList_entries

theorem sortedTable_nodeOf (h : ∀ key a, decoder depth (nodeOf (encodeAt key a)) = .ok a)
    (t : SortedTable α) :
    Decoder.sortedTable decoder (depth + 1)
      (nodeOf (.object (t.entries.map fun (key, a) => (key, encodeAt key a)))) = .ok t := by
  rw [Decoder.sortedTable, members_nodeOf h]
  exact congrArg Except.ok t.ofList_entries

end Decoder

/-! ## Records -/

namespace RecordField

variable {σ : Type} {fields : List (RecordField σ)} {start record : σ} {seen : List String}
variable {key : String} {value : Json} {members : List (String × Json)}

/-- A member that is the first of its name is read into its field. -/
theorem readMembers_cons {name : String} {update : σ → σ} {read : Decoder (σ → σ)}
    (hfind : fields.find? (fun field => field.name = key) = some ⟨name, read⟩)
    (hread : read depth (nodeOf value) = .ok update) (hseen : key ∉ seen) :
    readMembers fields depth seen record (memberNodes ((key, value) :: members)) =
      readMembers fields depth (key :: seen) (update record) (memberNodes members) := by
  rw [memberNodes, readMembers, text_quotedOf]
  simp only [bind, Except.bind, hfind, if_neg hseen, hread]

theorem readObject_nodeOf (members : List (String × Json)) :
    readObject fields start (depth + 1) (nodeOf (.object members)) =
      readMembers fields depth [] start (memberNodes members) := by
  rw [nodeOf, readObject]
  cases readMembers fields depth [] start (memberNodes members) <;> rfl

theorem readRecord_nodeOf (members : List (String × Json)) :
    readRecord fields start (depth + 1) (nodeOf (.object members)) =
      readMembers fields depth [] start (memberNodes members) := by
  rw [← readObject_nodeOf, nodeOf, readRecord]
  all_goals nofun

end RecordField

end Json

/-! ## The tables -/

open Json

theorem Json.membersToJson_memberNodes {depth : Nat} {members : List (String × Json)}
    (h : ∀ m ∈ members, ∃ v, (nodeOf m.2).toJson depth = .ok v) :
    ∃ vs, membersToJson depth (memberNodes members) = .ok vs := by
  induction members with
  | nil => exact ⟨[], rfl⟩
  | cons m members ih =>
      obtain ⟨v, hv⟩ := h m List.mem_cons_self
      obtain ⟨vs, hvs⟩ := ih fun m' hm' => h m' (List.mem_cons_of_mem m hm')
      refine ⟨(m.1, v) :: vs, ?_⟩
      rw [memberNodes, membersToJson, text_quotedOf, hv, hvs]
      rfl

/-- The notation of an object of strings and flags is whole. -/
theorem Json.toJson_nodeOf_object {depth : Nat} {members : List (String × Json)}
    (h : ∀ m ∈ members, ∃ v, (nodeOf m.2).toJson depth = .ok v) :
    ∃ v, (nodeOf (.object members)).toJson (depth + 1) = .ok v := by
  obtain ⟨vs, hvs⟩ := membersToJson_memberNodes h
  refine ⟨.object (mergeMembers vs), ?_⟩
  rw [nodeOf, Node.toJson, hvs]
  rfl

theorem Json.Decoder.stringOr_nodeOf_object {named : String → α} {record : Decoder α} {depth : Nat}
    {members : List (String × Json)}
    (h : ∀ m ∈ members, ∃ v, (nodeOf m.2).toJson depth = .ok v) :
    Decoder.stringOr named record (depth + 1) (nodeOf (.object members)) =
      record (depth + 1) (nodeOf (.object members)) := by
  obtain ⟨v, hv⟩ := toJson_nodeOf_object h
  rw [nodeOf] at hv ⊢
  rw [Decoder.stringOr, hv]
  rfl

@[simp] theorem Json.toJson_nodeOf_string (s : String) (depth : Nat) :
    (nodeOf (.string s)).toJson depth = .ok (.string s) := by
  rw [nodeOf, Node.toJson, text_quotedOf]
  rfl

@[simp] theorem Json.toJson_nodeOf_bool (b : Bool) (depth : Nat) :
    (nodeOf (.bool b)).toJson depth = .ok (.bool b) := rfl

namespace KeywordEntry

theorem decoder_toJson (entry : KeywordEntry) (depth : Nat) :
    decoder (depth + 1) (nodeOf entry.toJson) = .ok entry := by
  obtain ⟨classification, isExample⟩ := entry
  rw [toJson, decoder, Decoder.stringOr_nodeOf_object]
  · simp only [RecordField.readObject_nodeOf]
    rw [RecordField.readMembers_cons rfl (congrArg _ (Decoder.string_nodeOf _)) List.not_mem_nil]
    cases isExample
    · rfl
    · simp only [if_true]
      rw [RecordField.readMembers_cons rfl rfl (by decide)]
      rfl
  · cases isExample <;> simp

theorem plain_toJson (entry : KeywordEntry) : plain entry.toJson := by
  obtain ⟨classification, isExample⟩ := entry
  cases isExample <;> rfl

end KeywordEntry

namespace PrefixEntry

theorem plain_toJson (entry : PrefixEntry) : plain entry.toJson := rfl

theorem decoder_toJson (entry : PrefixEntry) (depth : Nat) :
    decoder (depth + 1) (nodeOf entry.toJson) = .ok entry := by
  rw [toJson, decoder, Decoder.stringOr_nodeOf_object]
  · simp only [RecordField.readObject_nodeOf]
    rw [RecordField.readMembers_cons rfl (congrArg _ (Decoder.string_nodeOf _)) List.not_mem_nil,
      RecordField.readMembers_cons rfl rfl (by decide)]
    rfl
  · simp

end PrefixEntry

namespace PrefixScope

theorem plain_toJson (entry : PrefixScope) : plain entry.toJson := rfl

theorem decoder_toJson (entry : PrefixScope) (depth : Nat) :
    decoder (depth + 1) (nodeOf entry.toJson) = .ok entry := by
  rw [toJson, decoder, RecordField.readRecord_nodeOf,
    RecordField.readMembers_cons rfl (congrArg _ (Decoder.string_nodeOf _)) List.not_mem_nil,
    RecordField.readMembers_cons rfl rfl (by decide)]
  rfl

end PrefixScope

variable {dialect : Dialect}

/-- Reading the text of a table of keywords gives the table. -/
theorem KeywordTable.read_text (table : KeywordTable) :
    decoder.read dialect table.toJson.text = .ok table := by
  have hplain : plain table.toJson := plainMembers_map fun _ => KeywordEntry.plain_toJson
  rw [Decoder.read_text decoder hplain]
  exact Decoder.sortedTable_nodeOf (fun _ entry => entry.decoder_toJson 125) table

theorem PrefixTable.read_text (table : PrefixTable) :
    decoder.read dialect table.toJson.text = .ok table := by
  have hplain : plain table.toJson := plainMembers_map fun _ => PrefixEntry.plain_toJson
  rw [Decoder.read_text decoder hplain]
  exact Decoder.sortedTable_nodeOf (fun _ entry => entry.decoder_toJson 125) table

theorem ClassificationTable.read_text (table : ClassificationTable) :
    decoder.read dialect table.toJson.text = .ok table := by
  have hplain : plain table.toJson := plain_ofStrings table.entries
  rw [Decoder.read_text decoder hplain]
  exact Decoder.table_nodeOf (fun _ => Decoder.string_nodeOf) table

theorem ScopeTable.read_text (table : ScopeTable) :
    decoder.read dialect table.toJson.text = .ok table := by
  have hplain : plain table.toJson := by
    have hkeywords := plain_ofStrings table.keywords.entries
    have hlegend : plain (.stringArray table.legend) := plainItems_map fun _ => rfl
    rw [toJson, plain, plainMembers, plainMembers, plainMembers, plainMembers]
    refine Bool.and_eq_true_iff.mpr ⟨hkeywords, Bool.and_eq_true_iff.mpr ⟨?_, ?_⟩⟩
    · exact plainMembers_map fun _ => PrefixScope.plain_toJson
    · exact Bool.and_eq_true_iff.mpr ⟨hlegend, rfl⟩
  rw [Decoder.read_text decoder hplain, toJson, decoder, maxDepth, RecordField.readRecord_nodeOf,
    RecordField.readMembers_cons rfl
      (congrArg _ (Decoder.table_nodeOf (fun _ => Decoder.string_nodeOf) table.keywords))
      List.not_mem_nil,
    RecordField.readMembers_cons rfl
      (congrArg _ (Decoder.table_nodeOf (fun _ entry => entry.decoder_toJson 124) table.prefixes))
      (by decide),
    RecordField.readMembers_cons rfl
      (congrArg _ (Decoder.list_nodeOf Decoder.string_nodeOf table.legend)) (by decide)]
  rfl

end Lexicolor
