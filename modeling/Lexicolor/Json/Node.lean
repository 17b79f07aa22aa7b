import Lexicolor.Json.Token
import Lexicolor.Json.Value

/-!
# JSON documents, whole or broken

The tokens of a text build a tree whose literals are still as written. A fault
closes every container that is open, so the tree of a broken text holds all that
stands before the fault.
-/

namespace Lexicolor.Json

/-- How a container ends. -/
inductive Ending where
  | closed
  /-- The last element is followed by a comma. -/
  | afterComma
  /-- A fault cuts the container short. -/
  | cut (f : Fault)
  deriving DecidableEq

/-- A value as written. -/
inductive Node where
  | null
  | bool (b : Bool)
  | number (n : Numeral)
  | badNumber (f : Fault)
  | string (q : Quoted)
  | array (items : List Node) (ending : Ending)
  | object (members : List (Quoted × Node)) (ending : Ending)
  | broken (f : Fault)
  deriving Inhabited

/-- A container whose value in progress is being read. What it holds already is in reverse. -/
inductive Open where
  | array (done : List Node)
  | object (done : List (Quoted × Node)) (key : Quoted)

/-- What may come next. -/
inductive Place where
  /-- A value, or the end of the array if `closable`. -/
  | value (closable : Bool)
  /-- A key, or the end of the object if `closable`. -/
  | key (done : List (Quoted × Node)) (closable : Bool)
  | colon (done : List (Quoted × Node)) (key : Quoted)
  /-- A comma or the end of the innermost container, after the value `v` in it. -/
  | next (v : Node)

/-- The node around `v`, which is the value in progress of the container. -/
def Open.close (v : Node) : Open → Node
  | .array done => .array (v :: done).reverse .closed
  | .object done key => .object ((key, v) :: done).reverse .closed

/-- How a container with the elements `done` ends where an element or the end may stand. -/
def endingAfter {α : Type} (done : List α) : Ending :=
  if done.isEmpty then .closed else .afterComma

/-- The document that breaks off at a place. -/
def abort (stack : List Open) (f : Fault) : Place → Node
  | .value _ => stack.foldl Open.close (.broken f)
  | .key done _ => stack.foldl Open.close (.object done.reverse (.cut f))
  | .colon done key =>
      stack.foldl Open.close (.object ((key, .broken f) :: done).reverse .closed)
  | .next v => match stack with
    | [] => v
    | .array done :: stack =>
        stack.foldl Open.close (.array (v :: done).reverse (.cut f))
    | .object done key :: stack =>
        stack.foldl Open.close (.object ((key, v) :: done).reverse (.cut f))

/-- The place after one more token, and the containers open there. -/
def step (dialect : Dialect) (stack : List Open) (token : Token) :
    Place → Except Fault (Place × List Open)
  | .value closable => match token with
    | .null => .ok (.next .null, stack)
    | .bool b => .ok (.next (.bool b), stack)
    | .number n => .ok (.next (.number n), stack)
    | .badNumber f => .ok (.next (.badNumber f), stack)
    | .quoted q => .ok (.next (.string q), stack)
    | .openArray => .ok (.value true, .array [] :: stack)
    | .openObject => .ok (.key [] true, stack)
    | .closeArray => match closable, stack with
      | true, .array done :: stack =>
          .ok (.next (.array done.reverse (endingAfter done)), stack)
      | _, _ => .error .malformed
    | .junk f | .badBlank f => .error f
    | _ => .error .malformed
  | .key done closable => match token with
    | .quoted q => .ok (.colon done q, stack)
    | .closeObject =>
        if closable then .ok (.next (.object done.reverse (endingAfter done)), stack)
        else .error .malformed
    | .badBlank f => .error f
    | _ => .error .malformed
  | .colon done key => match token with
    | .colon => .ok (.value false, .object done key :: stack)
    | .badBlank f => .error f
    | _ => .error .malformed
  | .next v => match token, stack with
    | .comma, .array done :: stack =>
        .ok (.value (dialect = .relaxed), .array (v :: done) :: stack)
    | .comma, .object done key :: stack =>
        .ok (.key ((key, v) :: done) (dialect = .relaxed), stack)
    | .closeArray, .array done :: stack =>
        .ok (.next (.array (v :: done).reverse .closed), stack)
    | .closeObject, .object done key :: stack =>
        .ok (.next (.object ((key, v) :: done).reverse .closed), stack)
    | .badBlank f, _ => .error f
    | _, _ => .error .malformed

/-- The document that the tokens complete, and the tokens after it. -/
def build (dialect : Dialect) : Place → List Open → List Token → Node × List Token
  | .next v, [], tokens => (v, tokens)
  | place, stack, [] => (abort stack .truncated place, [])
  | place, stack, token :: tokens =>
      match step dialect stack token place with
      | .ok (place, stack) => build dialect place stack tokens
      | .error f => (abort stack f place, [])

/-- The container is not cut short. -/
def Ending.check : Ending → Except Fault Unit
  | .cut f => .error f
  | _ => .ok ()

/-- The container is not cut short, nor is there a comma after its last element. -/
def Ending.checkPlain : Ending → Except Fault Unit
  | .closed => .ok ()
  | .afterComma => .error .malformed
  | .cut f => .error f

/-- The literal is complete. -/
def Quoted.check (q : Quoted) : Except Fault Unit :=
  match q.fault with
  | none => .ok ()
  | some f => .error f

mutual

/-- Checks that the notation of a node that is not looked at is whole. There the relaxed dialect
allows no comma after a last element, and no number may be incomplete, even at the end of the
text. -/
def Node.checkWhole : Node → Except Fault Unit
  | .string q => q.check
  | .array items ending => do
      checkItems items
      ending.checkPlain
  | .object members ending => do
      checkMembers members
      ending.checkPlain
  | .badNumber _ => .error .malformed
  | .broken f => .error f
  | _ => .ok ()

def checkItems : List Node → Except Fault Unit
  | [] => .ok ()
  | node :: nodes => do
      node.checkWhole
      checkItems nodes

def checkMembers : List (Quoted × Node) → Except Fault Unit
  | [] => .ok ()
  | (key, node) :: members => do
      key.check
      node.checkWhole
      checkMembers members

end

/-- The number of a literal; one that is too large breaks the rules of the notation. -/
def numberOf (n : Numeral) : Except Fault Number :=
  match n.toNumber? with
  | some value => .ok value
  | none => .error .malformed

/-- Sets the members one after the other: a repeated key keeps its place and takes the last
value. -/
def mergeMembers (members : List (String × Json)) : List (String × Json) :=
  members.foldl (fun merged (key, value) => alterEntries key (fun _ => value) merged) []

mutual

/-- The value of a document; `depth` is the number of containers that may still be nested. The
first fault in the order of the text is reported. -/
def Node.toJson (depth : Nat) : Node → Except Fault Json
  | .null => .ok .null
  | .bool b => .ok (.bool b)
  | .number n => .number <$> numberOf n
  | .badNumber f => .error f
  | .string q => .string <$> q.text
  | .array items ending => match depth with
    | 0 => .error .malformed
    | depth + 1 => do
        let items ← itemsToJson depth items
        ending.check
        return .array items
  | .object members ending => match depth with
    | 0 => .error .malformed
    | depth + 1 => do
        let members ← membersToJson depth members
        ending.check
        return .object (mergeMembers members)
  | .broken f => .error f

def itemsToJson (depth : Nat) : List Node → Except Fault (List Json)
  | [] => .ok []
  | node :: nodes => do
      let item ← node.toJson depth
      let items ← itemsToJson depth nodes
      return item :: items

def membersToJson (depth : Nat) : List (Quoted × Node) → Except Fault (List (String × Json))
  | [] => .ok []
  | (key, node) :: members => do
      let key ← key.text
      let value ← node.toJson depth
      let members ← membersToJson depth members
      return (key, value) :: members

end

end Lexicolor.Json
