import Lexicolor.Json.Reader
import Lexicolor.SortedTable

/-!
# Decoding typed values

Decoders for strings, flags, lists, tables and records. The first problem in the
order of the text is reported, be it a fault of the notation or a value of an
unexpected form. A record may also be written as an array of its fields in
order; a field that is written twice has an unexpected form, and what stands
under a name that is no field is only checked for its notation.
-/

namespace Lexicolor.Json

variable {α σ : Type}

/-- The fault of a node that has not the expected form. Literals are read to their end first,
containers are not looked into. -/
def Node.mismatch : Node → Fault
  | .string q => match q.text with
    | .ok _ => .mistyped
    | .error f => f
  | .number n => match numberOf n with
    | .ok _ => .mistyped
    | .error f => f
  | .badNumber f | .broken f => f
  | _ => .mistyped

namespace Decoder

def string : Decoder String
  | _, .string q => q.text
  | _, node => .error node.mismatch

def bool : Decoder Bool
  | _, .bool b => .ok b
  | _, node => .error node.mismatch

/-- `null` is no value. -/
def optional (decoder : Decoder α) : Decoder (Option α)
  | _, .null => .ok none
  | depth, node => some <$> decoder depth node

def items (decoder : Decoder α) (depth : Nat) : List Node → Except Fault (List α)
  | [] => .ok []
  | node :: nodes => do
      let item ← decoder depth node
      let rest ← items decoder depth nodes
      return item :: rest

def list (decoder : Decoder α) : Decoder (List α)
  | 0, .array _ _ => .error .malformed
  | depth + 1, .array nodes ending => do
      let values ← items decoder depth nodes
      ending.check
      return values
  | _, node => .error node.mismatch

def entries (decoder : Decoder α) (depth : Nat) :
    List (Quoted × Node) → Except Fault (List (String × α))
  | [] => .ok []
  | (key, node) :: members => do
      let key ← key.text
      let value ← decoder depth node
      let rest ← entries decoder depth members
      return (key, value) :: rest

/-- The members of an object in the order of the text. -/
def members (decoder : Decoder α) : Decoder (List (String × α))
  | 0, .object _ _ => .error .malformed
  | depth + 1, .object nodes ending => do
      let values ← entries decoder depth nodes
      ending.check
      return values
  | _, node => .error node.mismatch

/-- An object as a table in insertion order. -/
def table (decoder : Decoder α) : Decoder (Table String α) :=
  fun depth node => Table.ofList <$> members decoder depth node

/-- An object as a sorted table. -/
def sortedTable (decoder : Decoder α) : Decoder (SortedTable α) :=
  fun depth node => SortedTable.ofList <$> members decoder depth node

end Decoder

/-- A field of a record under construction: its name, and how its value changes the record. -/
structure RecordField (σ : Type) where
  name : String
  read : Decoder (σ → σ)

namespace RecordField

/-- A field read by `decoder` and stored by `store`. -/
def of (name : String) (decoder : Decoder α) (store : α → σ → σ) : RecordField σ :=
  ⟨name, fun depth node => store <$> decoder depth node⟩

/-- Reads the members of an object into `record`; `seen` are the fields read so far. -/
def readMembers (fields : List (RecordField σ)) (depth : Nat) (seen : List String) (record : σ) :
    List (Quoted × Node) → Except Fault σ
  | [] => .ok record
  | (key, node) :: members => do
      let key ← key.text
      match fields.find? fun field => field.name = key with
      | none =>
          node.checkWhole
          readMembers fields depth seen record members
      | some field =>
          if key ∈ seen then .error .mistyped
          else
            let update ← field.read depth node
            readMembers fields depth (key :: seen) (update record) members

/-- Reads the items of an array that has an ending into the fields in order.
Fields at the end may be missing, items after the last field may not stand there. -/
def readItems (depth : Nat) (ending : Ending) (record : σ) :
    List (RecordField σ) → List Node → Except Fault σ
  | _, [] => do
      ending.check
      return record
  | [], _ :: _ => .error .malformed
  | field :: fields, node :: nodes => do
      let update ← field.read depth node
      readItems depth ending (update record) fields nodes

/-- A record written as an object. -/
def readObject (fields : List (RecordField σ)) (start : σ) : Decoder σ
  | 0, .object _ _ => .error .malformed
  | depth + 1, .object members ending => do
      let record ← readMembers fields depth [] start members
      ending.check
      return record
  | _, node => .error node.mismatch

/-- A record written as an object or as an array of its fields. -/
def readRecord (fields : List (RecordField σ)) (start : σ) : Decoder σ
  | 0, .array _ _ => .error .malformed
  | depth + 1, .array nodes ending => readItems depth ending start fields nodes
  | depth, node => readObject fields start depth node

end RecordField

/-- A value that is a string or a record. Its notation is checked as a whole first. -/
def Decoder.stringOr (named : String → α) (record : Decoder α) : Decoder α :=
  fun depth node => do
    let _ ← node.toJson depth
    match node with
    | .string q => named <$> q.text
    | .object _ _ => record depth node
    | _ => .error .mistyped

/-- The value of a field that must be there. -/
def required (value : Option α) : Except Fault α :=
  match value with
  | some value => .ok value
  | none => .error .mistyped

end Lexicolor.Json
