import Mathlib
import Lexicolor.Grammar.Basic
import Lexicolor.Proofs.Json.RoundTrip

/-!
# Files of every kind

What is written to a file of tables or to a grammar is read back as it was. Fields
that are left out have the value they would have, and an entry that is just its
classification is the one without a mark.
-/

namespace Lexicolor

open Json

variable {depth : Nat}

/-! ## Members that may be left out -/

namespace Json

theorem plainMembers_append (members members' : List (String × Json)) :
    plainMembers (members ++ members') = (plainMembers members && plainMembers members') := by
  induction members with
  | nil => rw [List.nil_append, plainMembers, Bool.true_and]
  | cons m members ih => rw [List.cons_append, plainMembers, plainMembers, ih, Bool.and_assoc]

namespace RecordField

variable {σ α : Type}

/-- A part of an object that spells a field, or is left out where the field stays as it is. -/
inductive Spells (field : RecordField σ) (depth : Nat) (record : σ) :
    σ → List (String × Json) → Prop
  | absent : Spells field depth record record []
  | present {value : Json} {update : σ → σ} : field.read depth (nodeOf value) = .ok update →
      Spells field depth record (update record) [(field.name, value)]

/-- The members spell the fields in order. -/
inductive SpellAll (depth : Nat) :
    List (RecordField σ) → σ → σ → List (String × Json) → Prop
  | nil {record : σ} : SpellAll depth [] record record []
  | cons {field : RecordField σ} {fields : List (RecordField σ)} {record next last : σ}
      {part members : List (String × Json)} : field.Spells depth record next part →
      SpellAll depth fields next last members →
      SpellAll depth (field :: fields) record last (part ++ members)

variable {all fields : List (RecordField σ)} {field : RecordField σ} {record last : σ}
variable {seen : List String} {members : List (String × Json)}

theorem Spells.of_decoder {name : String} {decoder : Decoder α} {store : α → σ → σ}
    {value : Json} {a : α} (h : decoder depth (nodeOf value) = .ok a) :
    (of name decoder store).Spells depth record (store a record) [(name, value)] := by
  have hread : (of name decoder store).read depth (nodeOf value) = .ok (store a) := by
    show store <$> decoder depth (nodeOf value) = _
    rw [h]
    rfl
  exact .present hread

theorem find?_eq_some_of_mem (h : (all.map name).Nodup) (hmem : field ∈ all) :
    all.find? (fun other => other.name = field.name) = some field := by
  induction all with
  | nil => cases hmem
  | cons first all ih =>
      obtain ⟨hnew, hnodup⟩ := List.nodup_cons.mp h
      rcases List.mem_cons.mp hmem with rfl | hmem
      · simp
      · have hne : first.name ≠ field.name := fun heq =>
          hnew (heq ▸ List.mem_map.mpr ⟨field, hmem, rfl⟩)
        rw [List.find?_cons_of_neg (by simpa using hne), ih hnodup hmem]

theorem SpellAll.readMembers_of_mem (h : SpellAll depth fields record last members)
    (hall : ∀ field ∈ fields, all.find? (fun other => other.name = field.name) = some field)
    (hnodup : (fields.map name).Nodup) (hseen : ∀ field ∈ fields, field.name ∉ seen) :
    readMembers all depth seen record (memberNodes members) = .ok last := by
  induction h generalizing seen with
  | nil => rfl
  | @cons field record next fields last members part hpart _ ih =>
      obtain ⟨hnew, hnodup⟩ := List.nodup_cons.mp hnodup
      rw [List.forall_mem_cons] at hall hseen
      -- a member of a later field has another name, so no member is read twice
      cases hpart with
      | absent => exact ih hall.2 hnodup hseen.2
      | present hread =>
          refine (readMembers_cons hall.1 hread hseen.1).trans (ih hall.2 hnodup ?_)
          intro other hmem hold
          rcases List.mem_cons.mp hold with heq | hold
          · exact hnew (heq ▸ List.mem_map.mpr ⟨other, hmem, rfl⟩)
          · exact hseen.2 other hmem hold

/-- An object whose members spell the fields of a record is read as the record. -/
theorem SpellAll.readMembers (h : SpellAll depth fields record last members)
    (hnodup : (fields.map name).Nodup) :
    RecordField.readMembers fields depth [] record (memberNodes members) = .ok last :=
  h.readMembers_of_mem (fun _ => find?_eq_some_of_mem hnodup) hnodup fun _ _ => List.not_mem_nil

end RecordField

end Json

/-! ## Grammars -/

namespace GrammarPattern

open Json.RecordField (Spells)

theorem plain_optionalMember (key : String) (value : Option String) :
    plainMembers (optionalMember key value) := by
  cases value <;> rfl

theorem plain_capture (name : Option String) : plain (.object (optionalMember "name" name)) :=
  plain_optionalMember "name" name

theorem plain_captures (captures : Table String (Option String)) :
    plainMembers (captures.entries.map fun (key, name) =>
      (key, Json.object (optionalMember "name" name))) :=
  plainMembers_map fun _ => plain_capture

theorem plain_toJson (pattern : GrammarPattern) : plain pattern.toJson := by
  rw [toJson, plain, plainMembers_append, plainMembers_append, plain_optionalMember,
    plain_optionalMember, Bool.and_true, Bool.true_and]
  split
  · rfl
  · rw [plainMembers, plain, plain_captures]
    rfl

/-- A text that may be missing spells the field that is read from it. -/
theorem spells_optionalMember {σ : Type} {record : σ} {store : Option String → σ → σ}
    (key : String) (value : Option String) (hnone : store none record = record) :
    (RecordField.of key (Decoder.optional .string) store).Spells depth record
      (store value record) (optionalMember key value) := by
  cases value with
  | none =>
      rw [hnone]
      exact .absent
  | some text =>
      have hread : Decoder.optional .string depth (nodeOf (.string text)) = .ok (some text) :=
        congrArg (some <$> ·) (Decoder.string_nodeOf text)
      exact .of_decoder hread

theorem captureDecoder_nodeOf (name : Option String) :
    captureDecoder (depth + 1) (nodeOf (.object (optionalMember "name" name))) = .ok name := by
  have hspell : RecordField.SpellAll depth [.of "name" (Decoder.optional .string)
      fun value (_ : Option String) => value] none name (optionalMember "name" name ++ []) :=
    .cons (spells_optionalMember "name" name rfl) .nil
  rw [List.append_nil] at hspell
  rw [captureDecoder, RecordField.readRecord_nodeOf]
  exact hspell.readMembers (by decide)

/-- The captures spell their field, also where there are none. -/
theorem spells_captures (regex : Option String) (captures : Table String (Option String)) :
    let members := captures.entries.map fun (key, name) =>
      (key, Json.object (optionalMember "name" name))
    fields[1].Spells (depth + 2) ⟨regex, .empty, none⟩ ⟨regex, captures, none⟩
      (if members.isEmpty then [] else [("captures", .object members)]) := by
  intro members
  split
  next hempty =>
    have hnone : captures = .empty :=
      Table.ext (List.map_eq_nil_iff.mp (List.isEmpty_iff.mp hempty))
    rw [hnone]
    exact .absent
  next => exact .of_decoder (Decoder.table_nodeOf (fun _ => captureDecoder_nodeOf) captures)

theorem decoder_toJson (pattern : GrammarPattern) :
    decoder (depth + 3) (nodeOf pattern.toJson) = .ok pattern := by
  obtain ⟨regex, captures, name⟩ := pattern
  have hregex : fields[0].Spells (depth + 2) empty ⟨regex, .empty, none⟩
      (optionalMember "match" regex) := spells_optionalMember "match" regex rfl
  have hname : fields[2].Spells (depth + 2) ⟨regex, captures, none⟩ ⟨regex, captures, name⟩
      (optionalMember "name" name) := spells_optionalMember "name" name rfl
  have hspell : RecordField.SpellAll (depth + 2) fields empty ⟨regex, captures, name⟩ _ :=
    .cons hregex (.cons (spells_captures regex captures) (.cons hname .nil))
  rw [List.append_nil, ← List.append_assoc] at hspell
  rw [decoder, toJson, RecordField.readRecord_nodeOf]
  exact hspell.readMembers (by decide)

end GrammarPattern

namespace Grammar

variable {dialect : Dialect}

theorem plain_toJson {grammar : Grammar} (h : grammar.repository = .empty) :
    plain grammar.toJson := by
  have hpatterns : plainItems (grammar.patterns.map GrammarPattern.toJson) :=
    plainItems_map GrammarPattern.plain_toJson
  rw [toJson, h]
  simp only [plain, plainMembers, hpatterns]
  rfl

/-- Reading the text of a grammar without repository gives the grammar. -/
theorem read_text {grammar : Grammar} (h : grammar.repository = .empty) :
    decoder.read dialect grammar.toJson.text = .ok grammar := by
  obtain ⟨scopeName, injectionSelector, patterns, repository⟩ := grammar
  obtain rfl : repository = .empty := h
  have hrepository : Decoder.table .json 126 (nodeOf (.object [])) = .ok .empty := rfl
  have hspell : RecordField.SpellAll 126 fields {}
      ⟨some scopeName, injectionSelector, patterns, .empty⟩ [
        ("scopeName", .string scopeName),
        ("injectionSelector", .string injectionSelector),
        ("patterns", .array (patterns.map GrammarPattern.toJson)),
        ("repository", .object (Table.empty : Table String Json).entries)] :=
    .cons (.of_decoder (Decoder.string_nodeOf scopeName))
      (.cons (.of_decoder (Decoder.string_nodeOf injectionSelector))
        (.cons (.of_decoder (Decoder.list_nodeOf GrammarPattern.decoder_toJson patterns))
          (.cons (.of_decoder hrepository) .nil)))
  have hdraft := hspell.readMembers (by decide)
  rw [Decoder.read_text decoder (plain_toJson rfl), decoder, maxDepth, toJson,
    RecordField.readRecord_nodeOf, hdraft]
  rfl

end Grammar

/-! ## Bare classifications -/

namespace Json.Decoder

variable {α : Type}

theorem stringOr_nodeOf_string (named : String → α) (record : Decoder α) (s : String) :
    Decoder.stringOr named record depth (nodeOf (.string s)) = .ok (named s) := by
  have hwhole := toJson_nodeOf_string s depth
  rw [nodeOf] at hwhole ⊢
  rw [Decoder.stringOr, hwhole]
  exact congrArg (named <$> ·) (text_quotedOf s)

/-- A decoder of sorted tables takes entries in any order. -/
theorem sortedTable_ofList {decoder : Decoder α} {encodeAt : String → α → Json}
    (h : ∀ key a, decoder depth (nodeOf (encodeAt key a)) = .ok a) (entries : List (String × α)) :
    Decoder.sortedTable decoder (depth + 1)
      (nodeOf (.object (entries.map fun (key, a) => (key, encodeAt key a)))) =
        .ok (.ofList entries) := by
  rw [Decoder.sortedTable, members_nodeOf h]
  rfl

end Json.Decoder

section Brief

variable {α : Type} {dialect : Dialect} {bare? : α → Option String} {encode : α → Json}

/-- An entry as older files hold it: where asked for, just its classification, as far as that is
all of the entry. -/
def briefEntry (bare? : α → Option String) (encode : α → Json) (isBrief : Bool) (a : α) : Json :=
  if isBrief then (bare? a).elim (encode a) .string else encode a

/-- Entries in any order, those of the chosen keys in the brief form. -/
def briefTable (bare? : α → Option String) (encode : α → Json) (isBrief : String → Bool)
    (entries : List (String × α)) : Json :=
  .object (entries.map fun (key, a) => (key, briefEntry bare? encode (isBrief key) a))

theorem briefEntry_cases {P : Json → Prop} {a : α} (hfull : P (encode a))
    (hbare : ∀ s, bare? a = some s → P (.string s)) (isBrief : Bool) :
    P (briefEntry bare? encode isBrief a) := by
  rw [briefEntry]
  cases isBrief with
  | false => exact hfull
  | true =>
      cases hs : bare? a with
      | none => exact hfull
      | some s => exact hbare s hs

/-- Tables are read from brief entries as from whole ones. -/
theorem read_briefTable {named : String → α} {record : Decoder α}
    (hplain : ∀ a, plain (encode a))
    (hfull : ∀ a depth, Decoder.stringOr named record (depth + 1) (nodeOf (encode a)) = .ok a)
    (hbare : ∀ a s, bare? a = some s → named s = a) (isBrief : String → Bool)
    (entries : List (String × α)) :
    (Decoder.sortedTable (Decoder.stringOr named record)).read dialect
      (briefTable bare? encode isBrief entries).text = .ok (.ofList entries) := by
  -- one case for the two forms: both are plain, and both are read as the entry
  have hentry (key : String) (a : α) : plain (briefEntry bare? encode (isBrief key) a) :=
    briefEntry_cases (P := fun value => plain value) (hplain a) (fun s _ => plain_string s) _
  have hread (key : String) (a : α) : Decoder.stringOr named record 126
      (nodeOf (briefEntry bare? encode (isBrief key) a)) = .ok a := by
    refine briefEntry_cases (P := fun value => Decoder.stringOr named record 126 (nodeOf value) =
      .ok a) (hfull a 125) (fun s hs => ?_) _
    rw [Decoder.stringOr_nodeOf_string, hbare a s hs]
  have htable : plain (briefTable bare? encode isBrief entries) := plainMembers_map hentry
  rw [Decoder.read_text _ htable]
  exact Decoder.sortedTable_ofList hread entries

end Brief

variable {dialect : Dialect}

namespace KeywordTable

/-- The classification, if that is all of the entry. -/
def bare? (entry : KeywordEntry) : Option String :=
  if entry.isExample then none else some entry.classification

/-- Keywords as older files hold them. -/
def brief (isBrief : String → Bool) (entries : List (String × KeywordEntry)) : Json :=
  briefTable bare? KeywordEntry.toJson isBrief entries

theorem read_brief (isBrief : String → Bool) (entries : List (String × KeywordEntry)) :
    decoder.read dialect (brief isBrief entries).text = .ok (.ofList entries) := by
  refine read_briefTable KeywordEntry.plain_toJson KeywordEntry.decoder_toJson ?_ isBrief entries
  rintro ⟨classification, _ | _⟩ s hs <;> cases hs
  rfl

end KeywordTable

namespace PrefixTable

/-- The classification, if that is all of the entry. -/
def bare? (entry : PrefixEntry) : Option String :=
  if entry.isVariable then none else some entry.classification

/-- Prefixes as older files hold them. -/
def brief (isBrief : String → Bool) (entries : List (String × PrefixEntry)) : Json :=
  briefTable bare? PrefixEntry.toJson isBrief entries

theorem read_brief (isBrief : String → Bool) (entries : List (String × PrefixEntry)) :
    decoder.read dialect (brief isBrief entries).text = .ok (.ofList entries) := by
  refine read_briefTable PrefixEntry.plain_toJson PrefixEntry.decoder_toJson ?_ isBrief entries
  rintro ⟨classification, _ | _⟩ s hs <;> cases hs
  rfl

end PrefixTable

/-! ## Every kind of file -/

/-- What is written is read back as it was, entry for entry and in order. Files in which some
entries are just their classifications hold the tables that they would hold in full. -/
theorem Json.read_text_of_tables :
    (∀ table : KeywordTable, KeywordTable.decoder.read dialect table.toJson.text = .ok table) ∧
    (∀ table : PrefixTable, PrefixTable.decoder.read dialect table.toJson.text = .ok table) ∧
    (∀ table : ClassificationTable,
      ClassificationTable.decoder.read dialect table.toJson.text = .ok table) ∧
    (∀ table : ScopeTable, ScopeTable.decoder.read dialect table.toJson.text = .ok table) ∧
    (∀ scopeName injectionSelector patterns,
      let grammar : Grammar := ⟨scopeName, injectionSelector, patterns, .empty⟩
      Grammar.decoder.read dialect grammar.toJson.text = .ok grammar) ∧
    (∀ isBrief (table : KeywordTable), KeywordTable.decoder.read dialect
      (KeywordTable.brief isBrief table.entries).text = .ok table) ∧
    (∀ isBrief (table : PrefixTable), PrefixTable.decoder.read dialect
      (PrefixTable.brief isBrief table.entries).text = .ok table) ∧
    (∀ isBrief entries, KeywordTable.decoder.read dialect
        (KeywordTable.brief isBrief entries).text =
      KeywordTable.decoder.read dialect (KeywordTable.brief (fun _ => false) entries).text) ∧
    ∀ isBrief entries, PrefixTable.decoder.read dialect
        (PrefixTable.brief isBrief entries).text =
      PrefixTable.decoder.read dialect (PrefixTable.brief (fun _ => false) entries).text := by
  refine ⟨KeywordTable.read_text, PrefixTable.read_text, ClassificationTable.read_text,
    ScopeTable.read_text, fun _ _ _ => Grammar.read_text rfl, fun isBrief table => ?_,
    fun isBrief table => ?_, fun isBrief entries => ?_, fun isBrief entries => ?_⟩
  · rw [KeywordTable.read_brief, SortedTable.ofList_entries]
  · rw [PrefixTable.read_brief, SortedTable.ofList_entries]
  · rw [KeywordTable.read_brief, KeywordTable.read_brief]
  · rw [PrefixTable.read_brief, PrefixTable.read_brief]

end Lexicolor
