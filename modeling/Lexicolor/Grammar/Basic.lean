import Lexicolor.Json.Decoder

/-!
# Editor grammars

A grammar is a list of patterns for the editor. The scope of what a pattern
matches is its name, or else the name of its first capture.
-/

namespace Lexicolor

structure GrammarPattern where
  regex : Option String
  /-- The captures with their names, where they have one. -/
  captures : Table String (Option String)
  name : Option String

structure Grammar where
  scopeName : String
  injectionSelector : String
  patterns : List GrammarPattern
  repository : Table String Json

namespace GrammarPattern

def empty : GrammarPattern := ⟨none, .empty, none⟩

/-- The pattern whose first capture is everything, with the scope as its name. -/
def captured (regex scope : String) : GrammarPattern :=
  ⟨some regex, .ofList [("1", some scope)], none⟩

/-- The scope of what the pattern matches. -/
def scope? (pattern : GrammarPattern) : Option String :=
  pattern.name.or (pattern.captures.get? "1").join

open Json in
def captureDecoder : Decoder (Option String) :=
  RecordField.readRecord [.of "name" (Decoder.optional .string) fun value _ => value] none

open Json in
def fields : List (RecordField GrammarPattern) := [
  .of "match" (Decoder.optional .string) fun value pattern => { pattern with regex := value },
  .of "captures" (Decoder.table captureDecoder) fun value pattern =>
    { pattern with captures := value },
  .of "name" (Decoder.optional .string) fun value pattern => { pattern with name := value }]

def decoder : Json.Decoder GrammarPattern := Json.RecordField.readRecord fields empty

/-- The member of an object that is left out when there is no value. -/
def optionalMember (key : String) (value : Option String) : List (String × Json) :=
  (value.map fun text => (key, .string text)).toList

def toJson (pattern : GrammarPattern) : Json :=
  let captures := pattern.captures.entries.map fun (key, name) =>
    (key, Json.object (optionalMember "name" name))
  .object (optionalMember "match" pattern.regex ++
    (if captures.isEmpty then [] else [("captures", .object captures)]) ++
    optionalMember "name" pattern.name)

end GrammarPattern

namespace Grammar

/-- A grammar as far as its fields are read. -/
structure Draft where
  scopeName : Option String := none
  injectionSelector : String := ""
  patterns : List GrammarPattern := []
  repository : Table String Json := .empty

open Json in
def fields : List (RecordField Draft) := [
  .of "scopeName" Decoder.string fun value draft => { draft with scopeName := value },
  .of "injectionSelector" Decoder.string fun value draft =>
    { draft with injectionSelector := value },
  .of "patterns" (Decoder.list GrammarPattern.decoder) fun value draft =>
    { draft with patterns := value },
  .of "repository" (Decoder.table .json) fun value draft => { draft with repository := value }]

def decoder : Json.Decoder Grammar := fun depth node => do
  let draft ← Json.RecordField.readRecord fields {} depth node
  return ⟨← Json.required draft.scopeName, draft.injectionSelector, draft.patterns,
    draft.repository⟩

def toJson (grammar : Grammar) : Json :=
  .object [
    ("scopeName", .string grammar.scopeName),
    ("injectionSelector", .string grammar.injectionSelector),
    ("patterns", .array (grammar.patterns.map GrammarPattern.toJson)),
    ("repository", .object grammar.repository.entries)]

end Grammar

end Lexicolor
