import Mathlib
import Lexicolor.Proofs.Json.Lexemes

/-!
# Documents and the texts that spell them

A text that spells a value builds its document, wherever the value stands. The
other way round, what has been read at any place of a text spells all that the
open containers hold; so a document without faults comes from a text that spells
it.
-/

namespace Lexicolor.Json

variable {dialect : Dialect} {place place' : Place} {stack stack' : List Open} {token : Token}
variable {cs rest text : List Char} {node : Node}

/-! ## Documents without faults -/

/-- The document has neither a fault nor a literal that must not be looked at. -/
inductive Node.Fine : Node → Prop
  | null : Fine .null
  | bool (b : Bool) : Fine (.bool b)
  | number (n : Numeral) : Fine (.number n)
  | string {q : Quoted} (h : q.Fine) : Fine (.string q)
  | array {items : List Node} {ending : Ending} (hitems : ∀ node ∈ items, Fine node)
      (hending : ∀ f, ending ≠ .cut f) : Fine (.array items ending)
  | object {members : List (Quoted × Node)} {ending : Ending} (hkeys : ∀ m ∈ members, m.1.Fine)
      (hmembers : ∀ m ∈ members, Fine m.2) (hending : ∀ f, ending ≠ .cut f) :
      Fine (.object members ending)

theorem ok_of_map {α β : Type} {f : α → β} {x : Except Fault α} {b : β}
    (h : f <$> x = .ok b) : ∃ a, x = .ok a := by
  cases x with
  | error f => cases h
  | ok a => exact ⟨a, rfl⟩

theorem ok_of_bind {α β : Type} {f : α → Except Fault β} {x : Except Fault α} {b : β}
    (h : x >>= f = .ok b) : ∃ a, x = .ok a ∧ f a = .ok b := by
  cases x with
  | error f => cases h
  | ok a => exact ⟨a, rfl, h⟩

theorem fine_of_textOf {fault : Option Fault} {pieces : List Piece} {s : List Char}
    (h : textOf fault pieces = .ok s) : fault = none ∧ Piece.unread ∉ pieces := by
  fun_induction textOf fault pieces generalizing s
  case case1 hfault => exact ⟨hfault, List.not_mem_nil⟩
  case case3 ih =>
    obtain ⟨s, h⟩ := ok_of_map h
    simpa using ih h
  case case7 ih =>
    obtain ⟨s, h⟩ := ok_of_map h
    simpa using ih h
  case case10 ih =>
    obtain ⟨s, h⟩ := ok_of_map h
    simpa using ih h
  -- the other literals are refused
  all_goals cases h

theorem Quoted.fine_of_text {q : Quoted} {s : String} (h : q.text = .ok s) : q.Fine := by
  obtain ⟨s, h⟩ := ok_of_map h
  exact ⟨(fine_of_textOf h).1, (fine_of_textOf h).2⟩

theorem Ending.ne_cut_of_check {ending : Ending} (h : ending.check = .ok ()) (f : Fault) :
    ending ≠ .cut f := by
  rintro rfl
  cases h

mutual

theorem Node.fine_of_toJson {depth : Nat} :
    ∀ (node : Node) {v : Json}, node.toJson depth = .ok v → node.Fine
  | .null, _, _ => .null
  | .bool b, _, _ => .bool b
  | .number n, _, _ => .number n
  | .string q, _, h => by
      obtain ⟨s, h⟩ := ok_of_map h
      exact .string (Quoted.fine_of_text h)
  | .array items ending, v, h => by
      cases depth with
      | zero => cases h
      | succ depth =>
          rw [Node.toJson] at h
          obtain ⟨vs, hitems, h⟩ := ok_of_bind h
          obtain ⟨_, hending, -⟩ := ok_of_bind h
          exact .array (fine_of_itemsToJson items hitems) (Ending.ne_cut_of_check hending)
  | .object members ending, v, h => by
      cases depth with
      | zero => cases h
      | succ depth =>
          rw [Node.toJson] at h
          obtain ⟨vs, hmembers, h⟩ := ok_of_bind h
          obtain ⟨_, hending, -⟩ := ok_of_bind h
          have hfine := fine_of_membersToJson members hmembers
          exact .object (fun m hm => (hfine m hm).1) (fun m hm => (hfine m hm).2)
            (Ending.ne_cut_of_check hending)

theorem fine_of_itemsToJson {depth : Nat} :
    ∀ (items : List Node) {vs : List Json}, itemsToJson depth items = .ok vs →
      ∀ node ∈ items, node.Fine
  | [], _, _ => by simp
  | item :: items, vs, h => by
      rw [itemsToJson] at h
      obtain ⟨v, hitem, h⟩ := ok_of_bind h
      obtain ⟨vs, hitems, -⟩ := ok_of_bind h
      exact List.forall_mem_cons.mpr ⟨item.fine_of_toJson hitem, fine_of_itemsToJson items hitems⟩

theorem fine_of_membersToJson {depth : Nat} :
    ∀ (members : List (Quoted × Node)) {vs : List (String × Json)},
      membersToJson depth members = .ok vs → ∀ m ∈ members, m.1.Fine ∧ m.2.Fine
  | [], _, _ => by simp
  | (key, value) :: members, vs, h => by
      rw [membersToJson] at h
      obtain ⟨s, hkey, h⟩ := ok_of_bind h
      obtain ⟨v, hvalue, h⟩ := ok_of_bind h
      obtain ⟨vs, hmembers, -⟩ := ok_of_bind h
      exact List.forall_mem_cons.mpr ⟨⟨Quoted.fine_of_text hkey, value.fine_of_toJson hvalue⟩,
        fine_of_membersToJson members hmembers⟩

end

/-- The members have no faults. -/
def FineMembers (members : List (Quoted × Node)) : Prop := ∀ m ∈ members, m.1.Fine ∧ m.2.Fine

/-- What the container holds already has no faults. -/
def Open.Fine : Open → Prop
  | .array done => ∀ node ∈ done, node.Fine
  | .object done key => FineMembers done ∧ key.Fine

def Place.Fine : Place → Prop
  | .value _ => True
  | .key done _ => FineMembers done
  | .colon done q => FineMembers done ∧ q.Fine
  | .next node => node.Fine

theorem Node.Fine.of_array {items : List Node} {ending : Ending}
    (h : (Node.array items ending).Fine) : ∀ node ∈ items, node.Fine := by
  cases h
  assumption

theorem Node.Fine.of_object {members : List (Quoted × Node)} {ending : Ending}
    (h : (Node.object members ending).Fine) : FineMembers members := by
  cases h with
  | object hkeys hmembers _ => exact fun m hm => ⟨hkeys m hm, hmembers m hm⟩

theorem fineMembers_reverse {members : List (Quoted × Node)} :
    FineMembers members.reverse ↔ FineMembers members := by
  simp [FineMembers]

theorem fineMembers_cons {key : Quoted} {members : List (Quoted × Node)} :
    FineMembers ((key, node) :: members) ↔ (key.Fine ∧ node.Fine) ∧ FineMembers members :=
  List.forall_mem_cons

theorem Open.fine_of_close {container : Open} (h : (container.close node).Fine) :
    node.Fine ∧ container.Fine := by
  cases container with
  | array done =>
      have h := h.of_array
      simp only [List.mem_reverse, List.forall_mem_cons] at h
      exact h
  | object done key =>
      have h := fineMembers_cons.mp (fineMembers_reverse.mp h.of_object)
      exact ⟨h.1.2, h.2, h.1.1⟩

theorem fine_of_foldl_close (h : (stack.foldl (fun node c => c.close node) node).Fine) :
    node.Fine ∧ ∀ c ∈ stack, c.Fine := by
  induction stack generalizing node with
  | nil => exact ⟨h, by simp⟩
  | cons c stack ih =>
      obtain ⟨hclose, hstack⟩ := ih h
      obtain ⟨hnode, hc⟩ := Open.fine_of_close hclose
      exact ⟨hnode, List.forall_mem_cons.mpr ⟨hc, hstack⟩⟩

/-- The text before the place is a complete value. -/
def Complete : Place → List Open → Prop
  | .next _, [] => True
  | _, _ => False

theorem not_complete (h : ∀ node, place = .next node → stack = [] → False) :
    ¬Complete place stack := by
  intro hcomplete
  cases place with
  | next node =>
      cases stack with
      | nil => exact h node rfl rfl
      | cons c stack => exact hcomplete
  | _ => exact hcomplete

/-- Where a text breaks off before its value is complete, the document shows it. -/
theorem not_fine_abort {f : Fault} (h : ¬Complete place stack) : ¬(abort stack f place).Fine := by
  intro hfine
  cases place with
  | value closable => cases (fine_of_foldl_close hfine).1
  | key done closable =>
      cases (fine_of_foldl_close hfine).1 with
      | object _ _ hending => exact hending f rfl
  | colon done key =>
      have hmembers := fineMembers_reverse.mp (fine_of_foldl_close hfine).1.of_object
      cases (fineMembers_cons.mp hmembers).1.2
  | next node =>
      cases stack with
      | nil => exact h trivial
      | cons c stack =>
          cases c with
          | array done =>
              cases (fine_of_foldl_close hfine).1 with
              | array _ hending => exact hending f rfl
          | object done key =>
              cases (fine_of_foldl_close hfine).1 with
              | object _ _ hending => exact hending f rfl

/-! ## What a token does -/

/-- The document of a token that is a value by itself. -/
def Token.node? : Token → Option Node
  | .null => some .null
  | .bool b => some (.bool b)
  | .number n => some (.number n)
  | .badNumber f => some (.badNumber f)
  | .quoted q => some (.string q)
  | _ => none

/-- The places between which a token leads. -/
inductive Moves (dialect : Dialect) : Token → Place → List Open → Place → List Open → Prop
  | literal {token : Token} {closable : Bool} {node : Node} {stack : List Open}
      (h : token.node? = some node) :
      Moves dialect token (.value closable) stack (.next node) stack
  | openArray {closable : Bool} {stack : List Open} :
      Moves dialect .openArray (.value closable) stack (.value true) (.array [] :: stack)
  | openObject {closable : Bool} {stack : List Open} :
      Moves dialect .openObject (.value closable) stack (.key [] true) stack
  | endArray {done : List Node} {stack : List Open} :
      Moves dialect .closeArray (.value true) (.array done :: stack)
        (.next (.array done.reverse (endingAfter done))) stack
  | key {done : List (Quoted × Node)} {closable : Bool} {q : Quoted} {stack : List Open} :
      Moves dialect (.quoted q) (.key done closable) stack (.colon done q) stack
  | endObject {done : List (Quoted × Node)} {stack : List Open} :
      Moves dialect .closeObject (.key done true) stack
        (.next (.object done.reverse (endingAfter done))) stack
  | colon {done : List (Quoted × Node)} {q : Quoted} {stack : List Open} :
      Moves dialect .colon (.colon done q) stack (.value false) (.object done q :: stack)
  | item {node : Node} {done : List Node} {stack : List Open} :
      Moves dialect .comma (.next node) (.array done :: stack) (.value (dialect = .relaxed))
        (.array (node :: done) :: stack)
  | member {node : Node} {done : List (Quoted × Node)} {q : Quoted} {stack : List Open} :
      Moves dialect .comma (.next node) (.object done q :: stack)
        (.key ((q, node) :: done) (dialect = .relaxed)) stack
  | closeArray {node : Node} {done : List Node} {stack : List Open} :
      Moves dialect .closeArray (.next node) (.array done :: stack)
        (.next (.array (node :: done).reverse .closed)) stack
  | closeObject {node : Node} {done : List (Quoted × Node)} {q : Quoted} {stack : List Open} :
      Moves dialect .closeObject (.next node) (.object done q :: stack)
        (.next (.object ((q, node) :: done).reverse .closed)) stack

theorem step_eq_ok_iff : step dialect stack token place = .ok (place', stack') ↔
    Moves dialect token place stack place' stack' := by
  constructor
  · intro h
    unfold step at h
    repeat' split at h
    all_goals cases h
    -- one goal for each token that is allowed at the place
    any_goals exact .literal rfl
    any_goals constructor
    subst_vars
    constructor
  · intro h
    cases h with
    | @literal _ _ _ _ h =>
        cases token <;> cases h <;> rfl
    | _ => rfl

theorem Moves.fine (h : Moves dialect token place stack place' stack') (hplace : place'.Fine)
    (hstack : ∀ c ∈ stack', c.Fine) : place.Fine ∧ ∀ c ∈ stack, c.Fine := by
  cases h with
  | literal | openObject => exact ⟨trivial, hstack⟩
  | openArray => exact ⟨trivial, (List.forall_mem_cons.mp hstack).2⟩
  | endArray =>
      have hdone := hplace.of_array
      simp only [List.mem_reverse] at hdone
      exact ⟨trivial, List.forall_mem_cons.mpr ⟨hdone, hstack⟩⟩
  | key => exact ⟨hplace.1, hstack⟩
  | endObject => exact ⟨fineMembers_reverse.mp hplace.of_object, hstack⟩
  | colon => exact List.forall_mem_cons.mp hstack
  | item =>
      obtain ⟨hcontainer, hstack⟩ := List.forall_mem_cons.mp hstack
      obtain ⟨hnode, hdone⟩ := List.forall_mem_cons.mp hcontainer
      exact ⟨hnode, List.forall_mem_cons.mpr ⟨hdone, hstack⟩⟩
  | member =>
      obtain ⟨⟨hkey, hnode⟩, hdone⟩ := fineMembers_cons.mp hplace
      exact ⟨hnode, List.forall_mem_cons.mpr ⟨⟨hdone, hkey⟩, hstack⟩⟩
  | closeArray =>
      have hdone := hplace.of_array
      simp only [List.mem_reverse, List.forall_mem_cons] at hdone
      exact ⟨hdone.1, List.forall_mem_cons.mpr ⟨hdone.2, hstack⟩⟩
  | closeObject =>
      obtain ⟨⟨hkey, hnode⟩, hdone⟩ :=
        fineMembers_cons.mp (fineMembers_reverse.mp hplace.of_object)
      exact ⟨hnode, List.forall_mem_cons.mpr ⟨⟨hdone, hkey⟩, hstack⟩⟩

theorem Moves.fine_token (h : Moves dialect token place stack place' stack')
    (hplace : place'.Fine) : token.Fine := by
  cases h with
  | literal hnode =>
      cases token with
      | badNumber f =>
          cases hnode
          cases hplace
      | quoted q =>
          cases hnode
          cases hplace
          assumption
      | junk f | badBlank f => cases hnode
      | _ => trivial
  | key => exact hplace.2
  | _ => trivial

/-- What a document holds was without faults at every place on the way to it. -/
theorem fine_of_build {tokens : List Token} (h : (build dialect place stack tokens).1.Fine) :
    place.Fine ∧ ∀ c ∈ stack, c.Fine := by
  fun_induction build dialect place stack tokens with
  | case1 => exact ⟨h, by simp⟩
  | case2 place stack hopen => exact absurd h (not_fine_abort (not_complete hopen))
  | case3 place stack token tokens hopen place' stack' hstep ih =>
      obtain ⟨hplace, hstack⟩ := ih h
      exact (step_eq_ok_iff.mp hstep).fine hplace hstack
  | case4 place stack token tokens hopen f hstep =>
      exact absurd h (not_fine_abort (not_complete hopen))

theorem Moves.not_complete (h : Moves dialect token place stack place' stack') :
    ¬Complete place stack := by
  cases h <;> exact id

theorem Moves.build_eq (h : Moves dialect token place stack place' stack') (tokens : List Token) :
    build dialect place stack (token :: tokens) = build dialect place' stack' tokens := by
  rw [build, step_eq_ok_iff.mpr h]
  intro node hplace hstack
  apply h.not_complete
  rw [hplace, hstack]
  trivial

/-! ## From the notation to the document -/

theorem goesOn_cons {c : Char} : GoesOn (c :: cs) ↔ c.isDigit ∨ c = '.' ∨ c = 'e' ∨ c = 'E' := by
  simp [GoesOn]

theorem Gap.not_goesOn {gap : List Char} (h : Gap dialect gap) (hrest : ¬GoesOn rest) :
    ¬GoesOn (gap ++ rest) := by
  cases h with
  | nil => exact hrest
  | @blank c cs hc _ =>
      rw [List.cons_append, goesOn_cons]
      simp only [isBlank, Bool.or_eq_true, beq_iff_eq] at hc
      rcases hc with ((rfl | rfl) | rfl) | rfl <;> decide
  | comment _ htext _ =>
      cases htext <;> exact fun h => absurd (goesOn_cons.mp h) (by decide)

theorem Moves.build_mark {c : Char} (h : Moves dialect token place stack place' stack')
    (hmark : punctuation? c = some token) (rest : List Char) :
    build dialect place stack (tokens dialect (c :: rest)) =
      build dialect place' stack' (tokens dialect rest) := by
  rw [tokens_punctuation hmark, h.build_eq]

theorem Label.build_append {label : List Char} {key : Quoted} (h : Label dialect key label)
    (done : List (Quoted × Node)) (closable : Bool) (stack : List Open) (rest : List Char) :
    build dialect (.key done closable) stack (tokens dialect (label ++ rest)) =
      build dialect (.value false) (.object done key :: stack) (tokens dialect rest) := by
  obtain ⟨hbefore, hkey, hafter⟩ := h
  simp only [List.append_assoc]
  rw [hbefore.tokens_append, hkey.tokens_append, Moves.key.build_eq, hafter.tokens_append]
  exact Moves.colon.build_mark rfl rest

/-- The text builds what the phrase stands for, wherever it stands. -/
def Phrase.Builds (dialect : Dialect) : Phrase → List Char → Prop
  | .value node, cs | .slot node, cs => ∀ closable stack rest, ¬GoesOn rest →
      build dialect (.value closable) stack (tokens dialect (cs ++ rest)) =
        build dialect (.next node) stack (tokens dialect rest)
  | .items done, cs => ∀ stack rest,
      build dialect (.value true) (.array [] :: stack) (tokens dialect (cs ++ rest)) =
        build dialect (.value (done.isEmpty || dialect = .relaxed)) (.array done :: stack)
          (tokens dialect rest)
  | .members done, cs => ∀ stack rest,
      build dialect (.key [] true) stack (tokens dialect (cs ++ rest)) =
        build dialect (.key done (done.isEmpty || dialect = .relaxed)) stack (tokens dialect rest)

theorem closable_eq_true {α : Type} {done : List α} (h : done ≠ [] → dialect = .relaxed) :
    (done.isEmpty || dialect = .relaxed) = true := by
  cases done with
  | nil => rfl
  | cons a done => simp [h]

theorem builds_literal (token : Token) (hnode : token.node? = some node)
    (htoken : token.Spelled text) : (Phrase.value node).Builds dialect text := by
  intro closable stack rest hrest
  rw [htoken.tokens_append hrest, (Moves.literal hnode).build_eq]

theorem Spells.builds {phrase : Phrase} (h : Spells dialect phrase cs) :
    phrase.Builds dialect cs := by
  -- whatever is open around the phrase and follows it, the run goes on behind the phrase
  induction h with
  | null => exact builds_literal .null rfl rfl
  | trueWord => exact builds_literal (.bool true) rfl rfl
  | falseWord => exact builds_literal (.bool false) rfl rfl
  | number hnumber => exact builds_literal (.number _) rfl hnumber
  | string hstring => exact builds_literal (.quoted _) rfl hstring
  | slot hbefore _ hafter ih =>
      intro closable stack rest hrest
      rw [List.append_assoc, List.append_assoc, hbefore.tokens_append,
        ih closable stack _ (hafter.not_goesOn hrest), hafter.tokens_append]
  | noItems => exact fun stack rest => rfl
  | item _ _ ihitems ihslot =>
      intro stack rest
      rw [List.append_assoc, List.append_assoc, ihitems, ihslot _ _ _ (by simp [goesOn_cons])]
      exact Moves.item.build_mark rfl rest
  | array _ _ ihitems ihslot =>
      intro closable stack rest _
      rw [List.cons_append, Moves.openArray.build_mark rfl, List.append_assoc, List.append_assoc,
        ihitems, ihslot _ _ _ (by simp [goesOn_cons])]
      exact Moves.closeArray.build_mark rfl rest
  | arrayEnd _ hgap hdialect ihitems =>
      intro closable stack rest _
      rw [List.cons_append, Moves.openArray.build_mark rfl, List.append_assoc, List.append_assoc,
        ihitems, hgap.tokens_append, closable_eq_true hdialect]
      exact Moves.endArray.build_mark rfl rest
  | noMembers => exact fun stack rest => rfl
  | member _ hlabel _ ihmembers ihslot =>
      intro stack rest
      rw [List.append_assoc, List.append_assoc, List.append_assoc, ihmembers, hlabel.build_append,
        ihslot _ _ _ (by simp [goesOn_cons])]
      exact Moves.member.build_mark rfl rest
  | object _ hlabel _ ihmembers ihslot =>
      intro closable stack rest _
      rw [List.cons_append, Moves.openObject.build_mark rfl, List.append_assoc, List.append_assoc,
        List.append_assoc, ihmembers, hlabel.build_append, ihslot _ _ _ (by simp [goesOn_cons])]
      exact Moves.closeObject.build_mark rfl rest
  | objectEnd _ hgap hdialect ihmembers =>
      intro closable stack rest _
      rw [List.cons_append, Moves.openObject.build_mark rfl, List.append_assoc, List.append_assoc,
        ihmembers, hgap.tokens_append, closable_eq_true hdialect]
      exact Moves.endObject.build_mark rfl rest

/-! ## From the document to the notation -/

/-- The text leads to the first character of a value inside the open containers, or to a gap in
front of it. -/
inductive Began (dialect : Dialect) : List Open → List Char → Prop
  | top : Began dialect [] []
  | array {stack : List Open} {done : List Node} {cs gap items : List Char}
      (h : Began dialect stack cs) (hgap : Gap dialect gap)
      (hitems : Spells dialect (.items done) items) :
      Began dialect (.array done :: stack) (cs ++ (gap ++ '[' :: items))
  | object {stack : List Open} {done : List (Quoted × Node)} {q : Quoted}
      {cs gap members label : List Char} (h : Began dialect stack cs) (hgap : Gap dialect gap)
      (hmembers : Spells dialect (.members done) members) (hlabel : Label dialect q label) :
      Began dialect (.object done q :: stack) (cs ++ (gap ++ '\x7b' :: (members ++ label)))

/-- The text leads to the place, and spells what the place and the open containers hold. -/
inductive Reached (dialect : Dialect) : Place → List Open → List Char → Prop
  | value {closable : Bool} {stack : List Open} {cs gap : List Char} (h : Began dialect stack cs)
      (hgap : Gap dialect gap)
      (hclosable : closable → ∀ done outer, stack = .array done :: outer → done ≠ [] →
        dialect = .relaxed) :
      Reached dialect (.value closable) stack (cs ++ gap)
  | key {done : List (Quoted × Node)} {closable : Bool} {stack : List Open}
      {cs gap members after : List Char} (h : Began dialect stack cs) (hgap : Gap dialect gap)
      (hmembers : Spells dialect (.members done) members) (hafter : Gap dialect after)
      (hclosable : closable → done ≠ [] → dialect = .relaxed) :
      Reached dialect (.key done closable) stack (cs ++ (gap ++ '\x7b' :: (members ++ after)))
  | colon {done : List (Quoted × Node)} {q : Quoted} {stack : List Open}
      {cs gap members before text after : List Char} (h : Began dialect stack cs)
      (hgap : Gap dialect gap) (hmembers : Spells dialect (.members done) members)
      (hbefore : Gap dialect before) (hkey : q.Spelled text) (hafter : Gap dialect after) :
      Reached dialect (.colon done q) stack
        (cs ++ (gap ++ '\x7b' :: (members ++ (before ++ (text ++ after)))))
  | next {node : Node} {stack : List Open} {cs text : List Char} (h : Began dialect stack cs)
      (hslot : Spells dialect (.slot node) text) : Reached dialect (.next node) stack (cs ++ text)

theorem Reached.gap {gap : List Char} (h : Reached dialect place stack cs)
    (hgap : Gap dialect gap) : Reached dialect place stack (cs ++ gap) := by
  cases h with
  | value h hbefore hclosable =>
      rw [List.append_assoc]
      exact .value h (hbefore.append hgap) hclosable
  | key h hbefore hmembers hafter hclosable =>
      simpa using Reached.key h hbefore hmembers (hafter.append hgap) hclosable
  | colon h hbefore hmembers hlabel hkey hafter =>
      simpa using Reached.colon h hbefore hmembers hlabel hkey (hafter.append hgap)
  | next h hslot =>
      cases hslot with
      | slot hbefore hvalue hafter =>
          simpa using Reached.next h (.slot hbefore hvalue (hafter.append hgap))

theorem spells_of_node? (h : token.node? = some node) (htoken : token.Spelled text) :
    Spells dialect (.value node) text := by
  cases token with
  | null =>
      cases h
      cases htoken
      exact .null
  | bool b =>
      cases h
      cases b
      · cases htoken
        exact .falseWord
      · cases htoken
        exact .trueWord
  | number n =>
      cases h
      exact .number htoken
  | quoted q =>
      cases h
      exact .string htoken
  | badNumber f => exact htoken.elim
  | _ => cases h

/-- One token more spells what the place after it holds. -/
theorem Reached.move (h : Reached dialect place stack cs)
    (hmoves : Moves dialect token place stack place' stack') (htoken : token.Spelled text) :
    Reached dialect place' stack' (cs ++ text) := by
  -- what was reached before the token holds what is read so far, and the token is behind it
  cases hmoves with
  | literal hnode =>
      cases h with
      | value h hgap _ =>
          simpa using Reached.next h (.slot hgap (spells_of_node? hnode htoken) .nil)
  | openArray =>
      cases htoken
      cases h with
      | value h hgap _ =>
          -- nothing is in the array yet, so it may be closed in both dialects
          have hclosable : ∀ done outer, Open.array [] :: stack = .array done :: outer →
              done ≠ [] → dialect = .relaxed := by
            intro done outer heq hne
            cases heq
            exact absurd rfl hne
          simpa using Reached.value (h.array hgap .noItems) .nil fun _ => hclosable
  | openObject =>
      cases htoken
      cases h with
      | value h hgap _ =>
          simpa using Reached.key h hgap .noMembers .nil fun _ hne => absurd rfl hne
  | endArray =>
      cases htoken
      cases h with
      | value h hafter hclosable =>
          cases h with
          | array h hgap hitems =>
              have hend := Spells.arrayEnd hitems hafter (hclosable rfl _ _ rfl)
              simpa using Reached.next h (.slot hgap hend .nil)
  | key =>
      cases h with
      | key h hgap hmembers hafter _ =>
          simpa using Reached.colon h hgap hmembers hafter htoken .nil
  | endObject =>
      cases htoken
      cases h with
      | key h hgap hmembers hafter hclosable =>
          have hend := Spells.objectEnd hmembers hafter (hclosable rfl)
          simpa using Reached.next h (.slot hgap hend .nil)
  | colon =>
      cases htoken
      cases h with
      | colon h hgap hmembers hbefore hkey hafter =>
          have hlabel := Label.mk hbefore hkey hafter
          have hvalue : Reached dialect (.value false) _ _ :=
            .value (h.object hgap hmembers hlabel) .nil nofun
          simpa using hvalue
  | item =>
      cases htoken
      cases h with
      | next h hslot =>
          cases h with
          | array h hgap hitems =>
              simpa using Reached.value (h.array hgap (hitems.item hslot)) .nil
                fun hclosable _ _ _ _ => of_decide_eq_true hclosable
  | member =>
      cases htoken
      cases h with
      | next h hslot =>
          cases h with
          | object h hgap hmembers hlabel =>
              simpa using Reached.key h hgap (hmembers.member hlabel hslot) .nil
                fun hclosable _ => of_decide_eq_true hclosable
  | closeArray =>
      cases htoken
      cases h with
      | next h hslot =>
          cases h with
          | array h hgap hitems =>
              simpa using Reached.next h (.slot hgap (hitems.array hslot) .nil)
  | closeObject =>
      cases htoken
      cases h with
      | next h hslot =>
          cases h with
          | object h hgap hmembers hlabel =>
              simpa using Reached.next h (.slot hgap (hmembers.object hlabel hslot) .nil)

theorem build_nil (h : ¬Complete place stack) :
    build dialect place stack [] = (abort stack .truncated place, []) := by
  rw [build]
  intro node hplace hstack
  apply h
  rw [hplace, hstack]
  trivial

/-- Where the value is not complete and the document turns out to have no faults, the next token
has none either, and leads on. -/
theorem exists_moves {toks : List Token} (h : ¬Complete place stack)
    (hfine : (build dialect place stack (token :: toks)).1.Fine) :
    token.Fine ∧ ∃ place' stack', Moves dialect token place stack place' stack' := by
  cases hstep : step dialect stack token place with
  | error f =>
      have habort : build dialect place stack (token :: toks) = (abort stack f place, []) := by
        rw [build, hstep]
        intro node hplace hstack
        apply h
        rw [hplace, hstack]
        trivial
      rw [habort] at hfine
      exact absurd hfine (not_fine_abort h)
  | ok after =>
      have hmoves := step_eq_ok_iff.mp hstep
      rw [hmoves.build_eq] at hfine
      exact ⟨hmoves.fine_token (fine_of_build hfine).1, _, _, hmoves⟩

/-- The text, read on from where the first one has led, completes the document and leaves the
tokens. -/
def ReadsOn (dialect : Dialect) (cs t : List Char) (node : Node) (left : List Token) : Prop :=
  ∃ text rest, t = text ++ rest ∧ tokens dialect rest = left ∧
    Reached dialect (.next node) [] (cs ++ text)

theorem ReadsOn.append {t : List Char} {left : List Token}
    (h : ReadsOn dialect (cs ++ text) t node left) : ReadsOn dialect cs (text ++ t) node left := by
  obtain ⟨more, rest, rfl, hleft, hreached⟩ := h
  exact ⟨text ++ more, rest, (List.append_assoc ..).symm, hleft, by rwa [← List.append_assoc]⟩

/-- A complete value leaves the whole text that follows it. -/
theorem Reached.readsOn {t : List Char} {left : List Token} (h : Reached dialect place stack cs)
    (hcomplete : Complete place stack)
    (hbuild : build dialect place stack (tokens dialect t) = (node, left)) :
    ReadsOn dialect cs t node left := by
  cases place with
  | next v =>
      cases stack with
      | nil =>
          rw [build] at hbuild
          cases hbuild
          exact ⟨[], t, rfl, rfl, by rwa [List.append_nil]⟩
      | cons c stack => exact hcomplete.elim
  | _ => exact hcomplete.elim

/-- A text that is read on from a place to a document without faults spells the document, up to
where it is left. -/
theorem Reached.spells {t : List Char} {left : List Token} (h : Reached dialect place stack cs)
    (hbuild : build dialect place stack (tokens dialect t) = (node, left)) (hfine : node.Fine) :
    ReadsOn dialect cs t node left := by
  induction scans dialect t generalizing place stack cs with
  | @tail t htail =>
      by_cases hcomplete : Complete place stack
      · exact h.readsOn hcomplete hbuild
      · rw [htail.tokens_eq_nil, build_nil hcomplete] at hbuild
        cases hbuild
        exact absurd hfine (not_fine_abort hcomplete)
  | gap hgap _ ih =>
      rw [hgap.tokens_append] at hbuild
      exact (ih (h.gap hgap) hbuild).append
  | token htoken heq _ ih =>
      by_cases hcomplete : Complete place stack
      · exact h.readsOn hcomplete hbuild
      · rw [heq] at hbuild
        obtain ⟨-, place', stack', hmoves⟩ := exists_moves hcomplete (by rwa [hbuild])
        rw [hmoves.build_eq] at hbuild
        exact (ih (h.move hmoves htoken) hbuild).append
  | fault htoken heq =>
      by_cases hcomplete : Complete place stack
      · exact h.readsOn hcomplete hbuild
      · rw [heq] at hbuild
        exact absurd (exists_moves hcomplete (by rwa [hbuild])).1 htoken

/-- A document without faults is spelled in front of what is left of the text. -/
theorem exists_spells_of_document {t : String} {left : List Token}
    (h : document dialect t = (node, left)) (hfine : node.Fine) :
    ∃ lead body rest, t.toList = lead ++ (body ++ rest) ∧ Gap dialect lead ∧
      Spells dialect (.value node) body ∧ tokens dialect rest = left := by
  have hstart : Reached dialect (.value false) [] ([] ++ []) := .value .top .nil nofun
  obtain ⟨text, rest, ht, hleft, hreached⟩ := hstart.spells h hfine
  simp only [List.append_nil, List.nil_append] at hreached
  cases hreached with
  | next htop hslot =>
      cases htop
      cases hslot with
      | @slot _ lead body after hlead hbody hafter =>
          refine ⟨lead, body, after ++ rest, ?_, hlead, hbody, ?_⟩
          · rw [ht]
            simp
          · rw [hafter.tokens_append, hleft]

/-- A value with nothing but gaps around it is read as its document, and no token is left. -/
theorem Spells.document_eq {t : String} {lead body rest : List Char}
    (h : Spells dialect (.value node) body) (ht : t.toList = lead ++ (body ++ rest))
    (hlead : Gap dialect lead) (hrest : ¬GoesOn rest) :
    document dialect t = (node, tokens dialect rest) := by
  rw [document, ht, hlead.tokens_append, h.builds false [] rest hrest, build]

end Lexicolor.Json
