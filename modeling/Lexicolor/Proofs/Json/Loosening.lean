import Mathlib
import Lexicolor.Proofs.Json.WholeTexts

/-!
# Comments and commas put into a text

A text of the standard dialect is loosened by comments wherever blanks may stand,
and by a comma behind the last element of an array or object. The relaxed dialect
reads the same value from it.
-/

namespace Lexicolor.Json

variable {token : Token} {ts ts' : List Token} {t t' text : List Char} {after : Bool}
variable {place place' : Place} {stack stack' : List Open} {node node' : Node}

/-! ## Loosened texts -/

/-- A literal in front of the text is at its end. -/
def Delimited (t : List Char) : Prop :=
  ∀ c, t.head? = some c → isBlank c ∨ (punctuation? c).isSome

/-- Only blanks stand before the end of an array or object. -/
def ClosesNext (t : List Char) : Prop :=
  ∃ blanks c rest, t = blanks ++ c :: rest ∧ blanks.all isBlank ∧ (c = ']' ∨ c = '\x7d')

/-- The end of an array or object. -/
def Token.closes : Token → Bool
  | .closeArray | .closeObject => true
  | _ => false

/-- The second text comes from the first one by comments between its parts, and by commas between
what ends a value and the end of the container around it; `after` tells that a literal or a
container has ended just before. -/
inductive Loosens : (after : Bool) → List Char → List Char → Prop
  | nil {after : Bool} : Loosens after [] []
  | blank {after : Bool} {c : Char} {t t' : List Char} (hc : isBlank c)
      (h : Loosens after t t') : Loosens after (c :: t) (c :: t')
  | comment {after : Bool} {text t t' : List Char} (htext : Comment text)
      (h : Loosens after t t') : Loosens after t (text ++ t')
  | comma {t t' : List Char} (ht : ClosesNext t) (h : Loosens false t t') :
      Loosens true t (',' :: t')
  | mark {after : Bool} {c : Char} {token : Token} {t t' : List Char}
      (hc : punctuation? c = some token) (h : Loosens token.closes t t') :
      Loosens after (c :: t) (c :: t')
  | literal {after : Bool} {token : Token} {text t t' : List Char}
      (htoken : token.node?.isSome) (htext : token.Spelled text) (ht : Delimited t)
      (h : Loosens true t t') : Loosens after (text ++ t) (text ++ t')

/-- A value has ended with the token. -/
def Token.endsValue (token : Token) : Bool := token.node?.isSome || token.closes

/-- The tokens of a loosened text. -/
inductive Loosened : (after : Bool) → List Token → List Token → Prop
  | nil {after : Bool} : Loosened after [] []
  | cons {after : Bool} {token : Token} {ts ts' : List Token}
      (h : Loosened token.endsValue ts ts') : Loosened after (token :: ts) (token :: ts')
  | comma {token : Token} {ts ts' : List Token} (htoken : token.closes)
      (h : Loosened true ts ts') : Loosened true (token :: ts) (.comma :: token :: ts')

theorem Delimited.not_goesOn (h : Delimited t) : ¬GoesOn t := by
  intro hgoes
  obtain ⟨c, hc, hcontinues⟩ := hgoes
  rcases hcontinues with hdigit | rfl | rfl | rfl
  · obtain ⟨hblank, -, -, hmark, -⟩ := number_start (c := c) (by rw [hdigit]; rfl)
    simpa [hblank, hmark] using h c hc
  all_goals exact absurd (h _ hc) (by decide)

theorem exists_start_of_literal (htoken : token.node?.isSome) (h : token.Spelled text) :
    ∃ c cs, text = c :: cs ∧ isBlank c = false ∧ punctuation? c = none := by
  cases token with
  | null =>
      cases h
      exact ⟨'n', _, rfl, rfl, rfl⟩
  | bool b =>
      cases b
      · cases h
        exact ⟨'f', _, rfl, rfl, rfl⟩
      · cases h
        exact ⟨'t', _, rfl, rfl, rfl⟩
  | number n =>
      obtain ⟨c, cs, rfl, hc⟩ := Numeral.Spelled.exists_cons h
      obtain ⟨hblank, -, -, hmark, -⟩ := number_start hc
      exact ⟨c, cs, rfl, hblank, hmark⟩
  | quoted q =>
      cases h
      exact ⟨'"', _, rfl, rfl, rfl⟩
  | badNumber f => exact h.elim
  | _ => cases htoken

theorem Loosens.not_goesOn (h : Loosens after t t') (ht : Delimited t) : ¬GoesOn t' := by
  cases h with
  | nil => exact ht.not_goesOn
  | blank hc _ =>
      have hdelimited : Delimited [_] := fun d hd => .inl (Option.some.inj hd ▸ hc)
      simpa [goesOn_cons] using hdelimited.not_goesOn
  | comment htext _ =>
      cases htext <;> exact fun h => absurd (goesOn_cons.mp h) (by decide)
  | comma => exact fun h => absurd (goesOn_cons.mp h) (by decide)
  | mark hc _ =>
      have hdelimited : Delimited [_] := fun d hd =>
        .inr (Option.some.inj hd ▸ Option.isSome_of_eq_some hc)
      simpa [goesOn_cons] using hdelimited.not_goesOn
  | literal htoken htext _ _ =>
      obtain ⟨c, cs, rfl, hblank, hmark⟩ := exists_start_of_literal htoken htext
      have hstart := ht c rfl
      simp [hblank, hmark] at hstart

theorem ClosesNext.exists_tokens (h : ClosesNext t) :
    ∃ token ts, token.closes ∧ tokens .standard t = token :: ts := by
  obtain ⟨blanks, c, rest, rfl, hblanks, hc⟩ := h
  rw [tokens_blanks hblanks]
  rcases hc with rfl | rfl
  · exact ⟨.closeArray, _, rfl, tokens_punctuation rfl rest⟩
  · exact ⟨.closeObject, _, rfl, tokens_punctuation rfl rest⟩

theorem Token.node?_of_mark {c : Char} (h : punctuation? c = some token) :
    token.node? = none := by
  unfold punctuation? at h
  repeat' split at h
  all_goals cases h <;> rfl

theorem Loosens.loosened (h : Loosens after t t') :
    Loosened after (tokens .standard t) (tokens .relaxed t') := by
  induction h with
  | nil =>
      rw [tokens, tokens]
      exact .nil
  | blank hc _ ih => rwa [tokens_blank hc, tokens_blank hc]
  | comment htext _ ih => rwa [htext.tokens_append rfl]
  | comma ht _ ih =>
      obtain ⟨token, ts, htoken, hts⟩ := ht.exists_tokens
      rw [tokens_punctuation rfl]
      rw [hts] at ih ⊢
      generalize tokens .relaxed _ = ts' at ih ⊢
      cases ih with
      | cons h =>
          apply Loosened.comma htoken
          rwa [Token.endsValue, htoken, Bool.or_true] at h
  | mark hc _ ih =>
      rw [tokens_punctuation hc, tokens_punctuation hc]
      apply Loosened.cons
      rwa [Token.endsValue, Token.node?_of_mark hc]
  | literal htoken htext ht h ih =>
      rw [htext.tokens_append ht.not_goesOn, htext.tokens_append (h.not_goesOn ht)]
      apply Loosened.cons
      rwa [Token.endsValue, htoken]

/-! ## Documents of the same value -/

/-- The documents have the same value, or the same fault, at every depth. -/
def Node.Alike (node node' : Node) : Prop := ∀ depth, node.toJson depth = node'.toJson depth

def MembersAlike : List (Quoted × Node) → List (Quoted × Node) → Prop :=
  List.Forall₂ fun m m' => m.1 = m'.1 ∧ m.2.Alike m'.2

/-- The containers hold the same values already. -/
inductive Open.Alike : Open → Open → Prop
  | array {done done' : List Node} (h : List.Forall₂ Node.Alike done done') :
      Alike (.array done) (.array done')
  | object {done done' : List (Quoted × Node)} {key : Quoted} (h : MembersAlike done done') :
      Alike (.object done key) (.object done' key)

/-- The second place allows what the first one allows. -/
inductive Place.Alike : Place → Place → Prop
  | value {closable closable' : Bool} (h : closable → closable') :
      Alike (.value closable) (.value closable')
  | key {done done' : List (Quoted × Node)} {closable closable' : Bool}
      (hdone : MembersAlike done done') (h : closable → closable') :
      Alike (.key done closable) (.key done' closable')
  | colon {done done' : List (Quoted × Node)} {key : Quoted} (h : MembersAlike done done') :
      Alike (.colon done key) (.colon done' key)
  | next {node node' : Node} (h : node.Alike node') : Alike (.next node) (.next node')

theorem itemsToJson_congr {items items' : List Node} (h : List.Forall₂ Node.Alike items items')
    (depth : Nat) : itemsToJson depth items = itemsToJson depth items' := by
  induction h with
  | nil => rfl
  | cons hnode _ ih => rw [itemsToJson, itemsToJson, hnode depth, ih]

theorem membersToJson_congr {members members' : List (Quoted × Node)}
    (h : MembersAlike members members') (depth : Nat) :
    membersToJson depth members = membersToJson depth members' := by
  induction h with
  | nil => rfl
  | @cons m m' _ _ hm _ ih =>
      obtain ⟨key, node⟩ := m
      obtain ⟨key', node'⟩ := m'
      obtain ⟨rfl, hnode⟩ := hm
      rw [membersToJson, membersToJson, hnode depth, ih]

/-- A comma behind the last item does not change the value. -/
theorem Node.alike_array {done done' : List Node} {ending ending' : Ending}
    (h : List.Forall₂ Node.Alike done done') (hending : ending.check = ending'.check) :
    (Node.array done.reverse ending).Alike (.array done'.reverse ending') := by
  intro depth
  cases depth with
  | zero => rfl
  | succ depth =>
      rw [toJson, toJson, itemsToJson_congr (List.forall₂_reverse_iff.mpr h), hending]

theorem Node.alike_object {done done' : List (Quoted × Node)} {ending ending' : Ending}
    (h : MembersAlike done done') (hending : ending.check = ending'.check) :
    (Node.object done.reverse ending).Alike (.object done'.reverse ending') := by
  intro depth
  cases depth with
  | zero => rfl
  | succ depth =>
      rw [toJson, toJson, membersToJson_congr (List.forall₂_reverse_iff.mpr h), hending]

theorem check_endingAfter {α : Type} (done : List α) : (endingAfter done).check = .ok () := by
  cases done <;> rfl

theorem check_endingAfter_congr {α β : Type} (done : List α) (done' : List β) :
    (endingAfter done).check = (endingAfter done').check :=
  (check_endingAfter done).trans (check_endingAfter done').symm

theorem exists_alike_array {done : List Node}
    (h : List.Forall₂ Open.Alike (.array done :: stack) stack') :
    ∃ done' rest, stack' = .array done' :: rest ∧ List.Forall₂ Node.Alike done done' ∧
      List.Forall₂ Open.Alike stack rest := by
  cases h with
  | cons hcontainer hstack =>
      cases hcontainer with
      | array hdone => exact ⟨_, _, rfl, hdone, hstack⟩

theorem exists_alike_object {done : List (Quoted × Node)} {key : Quoted}
    (h : List.Forall₂ Open.Alike (.object done key :: stack) stack') :
    ∃ done' rest, stack' = .object done' key :: rest ∧ MembersAlike done done' ∧
      List.Forall₂ Open.Alike stack rest := by
  cases h with
  | cons hcontainer hstack =>
      cases hcontainer with
      | object hdone => exact ⟨_, _, rfl, hdone, hstack⟩

theorem exists_alike_next (h : (Place.next node).Alike place) :
    ∃ node', place = .next node' ∧ node.Alike node' := by
  cases h with
  | next hnode => exact ⟨_, rfl, hnode⟩

/-! ## The same run -/

/-- What the standard dialect allows, the relaxed one allows at an alike place, and it leads to an
alike place. -/
theorem Moves.relaxed {place₁ : Place} {stack₁ : List Open}
    (h : Moves .standard token place stack place' stack') (hplace : place.Alike place₁)
    (hstack : List.Forall₂ Open.Alike stack stack₁) :
    ∃ place₂ stack₂, Moves .relaxed token place₁ stack₁ place₂ stack₂ ∧ place'.Alike place₂ ∧
      List.Forall₂ Open.Alike stack' stack₂ := by
  cases h with
  | literal hnode =>
      cases hplace
      exact ⟨_, _, .literal hnode, .next fun _ => rfl, hstack⟩
  | openArray =>
      cases hplace
      exact ⟨_, _, .openArray, .value id, .cons (.array .nil) hstack⟩
  | openObject =>
      cases hplace
      exact ⟨_, _, .openObject, .key .nil id, hstack⟩
  | endArray =>
      obtain ⟨done', rest, rfl, hdone, hrest⟩ := exists_alike_array hstack
      cases hplace with
      | value hclosable =>
          rw [hclosable rfl]
          exact ⟨_, _, .endArray, .next (Node.alike_array hdone (check_endingAfter_congr _ _)),
            hrest⟩
  | key =>
      cases hplace with
      | key hdone _ => exact ⟨_, _, .key, .colon hdone, hstack⟩
  | endObject =>
      cases hplace with
      | key hdone hclosable =>
          rw [hclosable rfl]
          exact ⟨_, _, .endObject, .next (Node.alike_object hdone (check_endingAfter_congr _ _)),
            hstack⟩
  | colon =>
      cases hplace with
      | colon hdone => exact ⟨_, _, .colon, .value id, .cons (.object hdone) hstack⟩
  | item =>
      obtain ⟨node', rfl, hnode⟩ := exists_alike_next hplace
      obtain ⟨done', rest, rfl, hdone, hrest⟩ := exists_alike_array hstack
      exact ⟨_, _, .item, .value nofun, .cons (.array (.cons hnode hdone)) hrest⟩
  | member =>
      obtain ⟨node', rfl, hnode⟩ := exists_alike_next hplace
      obtain ⟨done', rest, rfl, hdone, hrest⟩ := exists_alike_object hstack
      exact ⟨_, _, .member, .key (.cons ⟨rfl, hnode⟩ hdone) nofun, hrest⟩
  | closeArray =>
      obtain ⟨node', rfl, hnode⟩ := exists_alike_next hplace
      obtain ⟨done', rest, rfl, hdone, hrest⟩ := exists_alike_array hstack
      exact ⟨_, _, .closeArray, .next (Node.alike_array (.cons hnode hdone) rfl), hrest⟩
  | closeObject =>
      obtain ⟨node', rfl, hnode⟩ := exists_alike_next hplace
      obtain ⟨done', rest, rfl, hdone, hrest⟩ := exists_alike_object hstack
      exact ⟨_, _, .closeObject, .next (Node.alike_object (.cons ⟨rfl, hnode⟩ hdone) rfl), hrest⟩

/-- A value has ended just before the place, or else a key. -/
inductive Ended : Place → Prop
  | value {node : Node} : Ended (.next node)
  | key {done : List (Quoted × Node)} {key : Quoted} : Ended (.colon done key)

theorem Moves.ended (h : Moves dialect token place stack place' stack')
    (htoken : token.endsValue) : Ended place' := by
  cases h with
  | openArray | openObject | colon | item | member => cases htoken
  | key => exact .key
  | _ => exact .value

/-- Where a container is closed after a value, the relaxed dialect takes a comma before its end. -/
theorem Moves.relaxed_comma {place₁ : Place} {stack₁ : List Open}
    (h : Moves .standard token place stack place' stack') (htoken : token.closes)
    (hended : Ended place) (hplace : place.Alike place₁)
    (hstack : List.Forall₂ Open.Alike stack stack₁) :
    ∃ middle stack₂ place₃ stack₃, Moves .relaxed .comma place₁ stack₁ middle stack₂ ∧
      Moves .relaxed token middle stack₂ place₃ stack₃ ∧ place'.Alike place₃ ∧
      List.Forall₂ Open.Alike stack' stack₃ := by
  cases h with
  | closeArray =>
      obtain ⟨node', rfl, hnode⟩ := exists_alike_next hplace
      obtain ⟨done', rest, rfl, hdone, hrest⟩ := exists_alike_array hstack
      exact ⟨_, _, _, _, .item, .endArray, .next (Node.alike_array (.cons hnode hdone) rfl), hrest⟩
  | closeObject =>
      obtain ⟨node', rfl, hnode⟩ := exists_alike_next hplace
      obtain ⟨done', rest, rfl, hdone, hrest⟩ := exists_alike_object hstack
      exact ⟨_, _, _, _, .member, .endObject,
        .next (Node.alike_object (.cons ⟨rfl, hnode⟩ hdone) rfl), hrest⟩
  | literal | endArray | endObject => cases hended
  | _ => cases htoken

theorem not_complete_of_build (h : build dialect place stack (token :: ts) = (node, [])) :
    ¬Complete place stack := by
  apply not_complete
  intro v hplace hstack
  subst hplace hstack
  cases h

/-- A run of the standard dialect to its end is one of the relaxed dialect on the tokens of a
loosened text. -/
theorem Loosened.build_eq {place₁ : Place} {stack₁ : List Open} (h : Loosened after ts ts')
    (hended : after → Ended place) (hplace : place.Alike place₁)
    (hstack : List.Forall₂ Open.Alike stack stack₁)
    (hbuild : build .standard place stack ts = (node, [])) (hfine : node.Fine) :
    ∃ node', build .relaxed place₁ stack₁ ts' = (node', []) ∧ node.Alike node' := by
  induction h generalizing place stack place₁ stack₁ with
  | nil =>
      by_cases hcomplete : Complete place stack
      · cases place with
        | next v =>
            obtain ⟨v', rfl, halike⟩ := exists_alike_next hplace
            cases hstack with
            | nil =>
                cases hbuild
                exact ⟨v', rfl, halike⟩
            | cons => exact hcomplete.elim
        | _ => exact hcomplete.elim
      · rw [build_nil hcomplete] at hbuild
        cases hbuild
        exact absurd hfine (not_fine_abort hcomplete)
  | cons h ih =>
      have hcomplete := not_complete_of_build hbuild
      obtain ⟨-, place', stack', hmoves⟩ := exists_moves hcomplete (by rwa [hbuild])
      obtain ⟨place₂, stack₂, hmoves', hplace', hstack'⟩ := hmoves.relaxed hplace hstack
      rw [hmoves.build_eq] at hbuild
      rw [hmoves'.build_eq]
      exact ih (fun h => hmoves.ended h) hplace' hstack' hbuild
  | comma htoken h ih =>
      have hcomplete := not_complete_of_build hbuild
      obtain ⟨-, place', stack', hmoves⟩ := exists_moves hcomplete (by rwa [hbuild])
      -- the relaxed run takes the comma first, and then the end as the standard one does
      obtain ⟨middle, stack₂, place₃, stack₃, hcomma, hmoves', hplace', hstack'⟩ :=
        hmoves.relaxed_comma htoken (hended rfl) hplace hstack
      rw [hmoves.build_eq] at hbuild
      rw [hcomma.build_eq, hmoves'.build_eq]
      exact ih (fun _ => hmoves.ended (by simp [Token.endsValue, htoken])) hplace' hstack' hbuild

/-! ## The whole text -/

theorem Gap.loosens_append {gap : List Char} (hgap : Gap .standard gap) (h : Loosens after t t') :
    Loosens after (gap ++ t) (gap ++ t') := by
  induction hgap with
  | nil => exact h
  | blank hc _ ih => exact .blank hc ih
  | comment hdialect => cases hdialect

theorem delimited_mark {c : Char} (hc : punctuation? c = some token) : Delimited (c :: t) :=
  fun _ hd => .inr (Option.some.inj hd ▸ Option.isSome_of_eq_some hc)

theorem Gap.delimited_append {gap : List Char} (hgap : Gap .standard gap) (ht : Delimited t) :
    Delimited (gap ++ t) := by
  cases hgap with
  | nil => exact ht
  | blank hc _ => exact fun _ hd => .inl (Option.some.inj hd ▸ hc)
  | comment hdialect => cases hdialect

theorem Gap.delimited {gap : List Char} (hgap : Gap .standard gap) : Delimited gap := by
  simpa using hgap.delimited_append (nofun : Delimited [])

/-- In front of what may be loosened, the phrase may stand as it is. -/
def Phrase.Stays : Phrase → List Char → Prop
  | .value _, text | .slot _, text => ∀ after t t', Delimited t → Loosens true t t' →
      Loosens after (text ++ t) (text ++ t')
  | .items _, text | .members _, text => ∀ t t', Loosens false t t' →
      Loosens false (text ++ t) (text ++ t')

theorem literal_stays (token : Token) (htoken : token.node?.isSome) (htext : token.Spelled text)
    (after : Bool) (ht : Delimited t) (h : Loosens true t t') :
    Loosens after (text ++ t) (text ++ t') :=
  .literal htoken htext ht h

theorem Loosens.open_mark {c : Char} (hc : punctuation? c = some token)
    (htoken : token.closes = false) (h : Loosens false t t') : Loosens after (c :: t) (c :: t') := by
  apply Loosens.mark hc
  rwa [htoken]

theorem Label.loosens_append {key : Quoted} {label : List Char} (hlabel : Label .standard key label)
    (h : Loosens false t t') : Loosens false (label ++ t) (label ++ t') := by
  cases hlabel with
  | @mk before text after hbefore hkey hafter =>
      have hcolon : Loosens true (after ++ (':' :: t)) (after ++ (':' :: t')) :=
        hafter.loosens_append (.mark rfl h)
      have hdelimited := hafter.delimited_append (delimited_mark (c := ':') (t := t) rfl)
      have hrest := literal_stays (.quoted key) rfl hkey false hdelimited hcolon
      simpa using hbefore.loosens_append hrest

theorem Spells.stays {phrase : Phrase} (h : Spells .standard phrase text) : phrase.Stays text := by
  -- what stands behind the phrase is loosened before the phrase itself
  induction h with
  | null => exact fun after _ _ => literal_stays .null rfl rfl after
  | trueWord => exact fun after _ _ => literal_stays (.bool true) rfl rfl after
  | falseWord => exact fun after _ _ => literal_stays (.bool false) rfl rfl after
  | @number n _ hn => exact fun after _ _ => literal_stays (.number n) rfl hn after
  | @string q _ hq => exact fun after _ _ => literal_stays (.quoted q) rfl hq after
  | slot hbefore _ hafter ih =>
      intro after t t' ht h
      have := ih after _ _ (hafter.delimited_append ht) (hafter.loosens_append h)
      simpa using hbefore.loosens_append this
  | noItems | noMembers => exact fun _ _ h => h
  | item _ _ ihitems ih =>
      intro t t' h
      have := ih false (',' :: t) (',' :: t') (delimited_mark rfl) (.mark rfl h)
      simpa using ihitems _ _ this
  | array _ _ ihitems ih =>
      intro after t t' ht h
      have := ih false (']' :: t) (']' :: t') (delimited_mark rfl) (.mark rfl h)
      simpa using Loosens.open_mark rfl rfl (ihitems _ _ this)
  | arrayEnd _ hgap _ ihitems =>
      intro after t t' ht h
      have hend : Loosens false (']' :: t) (']' :: t') := .mark rfl h
      simpa using Loosens.open_mark rfl rfl (ihitems _ _ (hgap.loosens_append hend))
  | member _ hlabel _ ihmembers ih =>
      intro t t' h
      have := ih false (',' :: t) (',' :: t') (delimited_mark rfl) (.mark rfl h)
      simpa using ihmembers _ _ (hlabel.loosens_append this)
  | object _ hlabel _ ihmembers ih =>
      intro after t t' ht h
      have := ih false ('\x7d' :: t) ('\x7d' :: t') (delimited_mark rfl) (.mark rfl h)
      simpa using Loosens.open_mark rfl rfl (ihmembers _ _ (hlabel.loosens_append this))
  | objectEnd _ hgap _ ihmembers =>
      intro after t t' ht h
      have hend : Loosens false ('\x7d' :: t) ('\x7d' :: t') := .mark rfl h
      simpa using Loosens.open_mark rfl rfl (ihmembers _ _ (hgap.loosens_append hend))

/-- A text that is read is among the texts that come from it. -/
theorem loosens_self {t : String} {v : Json} (h : read .standard t = .ok v) :
    Loosens false t.toList t.toList := by
  obtain ⟨trail, ⟨lead, body, node, ht, hlead, hbody, -⟩, htrail⟩ := read_standard_iff.mp h
  cases htrail with
  | gap htrail =>
      have hend : Loosens true trail trail := by
        simpa using htrail.loosens_append Loosens.nil
      rw [ht]
      exact hlead.loosens_append (hbody.stays false _ _ htrail.delimited hend)
  | lastLine hdialect => cases hdialect

/-- The relaxed dialect reads the value of the standard one from a text, and also from all that come
from it by comments and by commas behind the last elements. -/
theorem read_relaxed_of_loosens (t : String) (v : Json) (h : read .standard t = .ok v) :
    Loosens false t.toList t.toList ∧
      ∀ t' : String, Loosens false t.toList t'.toList → read .relaxed t' = .ok v := by
  refine ⟨loosens_self h, fun t' ht' => ?_⟩
  obtain ⟨hvalue, hrest⟩ := read_eq_ok_iff.mp h
  have hbuild : document .standard t = ((document .standard t).1, []) := by
    rw [← hrest rfl]
  obtain ⟨node', hbuild', halike⟩ := ht'.loosened.build_eq nofun (.value id) .nil hbuild
    (Node.fine_of_toJson _ hvalue)
  have hdocument : document .relaxed t' = (node', []) := hbuild'
  rw [read_eq_ok_iff, hdocument]
  exact ⟨(halike maxDepth).symm.trans hvalue, nofun⟩

/-- An item and a member get a comma and a comment each. -/
theorem read_relaxed_of_loosens_items :
    read .standard "\x7b\"a\":[1]\x7d" = .ok (.object [("a", .array [.number (.integer 1)])]) ∧
    read .relaxed "\x7b\"a\":[1/**/,],//\n\x7d" =
      .ok (.object [("a", .array [.number (.integer 1)])]) := by
  have hread : read .standard "\x7b\"a\":[1]\x7d" =
      .ok (.object [("a", .array [.number (.integer 1)])]) := by cbv
  have hblock : Comment ['/', '*', '*', '/'] := @Comment.block [] (by decide) (by decide)
  have hline : Comment ['/', '/', '\n'] := .line List.not_mem_nil
  have hkey : (Token.quoted ⟨[.char 'a'], none⟩).Spelled ['"', 'a', '"'] :=
    .mk (.cons (.char (by decide) (by decide) (by decide)) .nil)
  have hone : (Token.number ⟨false, ['1'], none, none⟩).Spelled ['1'] :=
    @Numeral.Spelled.mk false ['1'] [] [] none none
      ⟨⟨List.cons_ne_nil _ _, List.forall_mem_singleton.mpr rfl⟩, by decide⟩ .absent .absent
  have hmember : Loosens true ['\x7d'] (',' :: (['/', '/', '\n'] ++ ['\x7d'])) :=
    .comma ⟨[], '\x7d', [], rfl, rfl, .inr rfl⟩ (.comment hline (.mark rfl .nil))
  have hitem : Loosens true [']', '\x7d'] (['/', '*', '*', '/'] ++ (',' :: (']' :: _))) :=
    .comment hblock (.comma ⟨[], ']', _, rfl, rfl, .inl rfl⟩ (.mark rfl hmember))
  have hafter : Loosens true (':' :: '[' :: (['1'] ++ _)) (':' :: '[' :: (['1'] ++ _)) :=
    .open_mark rfl rfl (.open_mark rfl rfl (.literal rfl hone (delimited_mark rfl) hitem))
  have hloosens : Loosens false ('\x7b' :: (['"', 'a', '"'] ++ _))
      ('\x7b' :: (['"', 'a', '"'] ++ _)) :=
    .open_mark rfl rfl (.literal rfl hkey (delimited_mark rfl) hafter)
  exact ⟨hread, (read_relaxed_of_loosens _ _ hread).2 _ hloosens⟩

end Lexicolor.Json
