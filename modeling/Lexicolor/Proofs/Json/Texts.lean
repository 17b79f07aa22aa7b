import Mathlib
import Lexicolor.Json.Printer
import Lexicolor.Json.Reader

/-!
# Texts of values

The text of a value without numbers is cut into the tokens that spell it, and
these build a document of the same shape: with the same containers, all closed,
and with literals that hold the characters of the strings.
-/

namespace Lexicolor.Json

variable {dialect : Dialect} {indent cs rest : List Char} {c : Char}

/-! ## Strings -/

/-- A character as a literal holds it. -/
def pieceOf (c : Char) : Piece :=
  if c.toNat < 0x20 ∧ c ≠ '\x08' ∧ c ≠ '\x0c' ∧ c ≠ '\n' ∧ c ≠ '\r' ∧ c ≠ '\t' then .unit c.toNat
  else .char c

/-- The literal of a string. -/
def quotedOf (s : String) : Quoted := ⟨s.toList.map pieceOf, none⟩

theorem hexNumber?_hexPair {n : Nat} (h : n < 0x20) :
    Text.hexNumber? ('0' :: '0' :: Text.hexPair n) = some n := by
  revert n
  decide

theorem readQuoted_escape (dialect : Dialect) (c : Char) (cs : List Char) :
    readQuoted dialect (escape c ++ cs) = Quoted.cons (pieceOf c) (readQuoted dialect cs) := by
  by_cases hquote : c = '"'
  · subst hquote
    simp [escape, readQuoted, escaped?, pieceOf]
  by_cases hback : c = '\\'
  · subst hback
    simp [escape, readQuoted, escaped?, pieceOf]
  by_cases hshort : c = '\x08' ∨ c = '\x0c' ∨ c = '\n' ∨ c = '\r' ∨ c = '\t'
  · rcases hshort with rfl | rfl | rfl | rfl | rfl <;>
      simp [escape, readQuoted, escaped?, pieceOf]
  simp only [not_or] at hshort
  by_cases hcontrol : c.toNat < 0x20
  · have hpair := hexNumber?_hexPair hcontrol
    simp only [Text.hexPair] at hpair
    simp [escape, pieceOf, hquote, hback, hshort, hcontrol, Text.hexPair, readQuoted, hpair]
  · simp [escape, pieceOf, hquote, hback, hshort, hcontrol, readQuoted]

theorem readQuoted_quote (dialect : Dialect) (s rest : List Char) :
    readQuoted dialect (s.flatMap escape ++ '"' :: rest) = (⟨s.map pieceOf, none⟩, rest) := by
  induction s with
  | nil => simp [readQuoted]
  | cons c s ih =>
      rw [List.flatMap_cons, List.append_assoc, readQuoted_escape, ih]
      rfl

theorem textOf_pieceOf (cs : List Char) : textOf none (cs.map pieceOf) = .ok cs := by
  induction cs with
  | nil => rfl
  | cons c cs ih =>
      rw [List.map_cons, pieceOf]
      split
      next h =>
        have hlow : isLowSurrogate c.toNat = false := by
          simp only [isLowSurrogate, Bool.and_eq_false_iff, decide_eq_false_iff_not]
          omega
        have hhigh : isHighSurrogate c.toNat = false := by
          simp only [isHighSurrogate, Bool.and_eq_false_iff, decide_eq_false_iff_not]
          omega
        rw [textOf.eq_def]
        simp [hlow, hhigh, ih, Functor.map, Except.map]
      next => rw [textOf, ih]; rfl

@[simp] theorem text_quotedOf (s : String) : (quotedOf s).text = .ok s := by
  rw [Quoted.text, quotedOf, textOf_pieceOf]
  simp [Functor.map, Except.map]

/-! ## Tokens -/

mutual

/-- The value holds no numbers. -/
def plain : Json → Bool
  | .number _ => false
  | .array items => plainItems items
  | .object members => plainMembers members
  | _ => true

def plainItems : List Json → Bool
  | [] => true
  | item :: items => plain item && plainItems items

def plainMembers : List (String × Json) → Bool
  | [] => true
  | (_, value) :: members => plain value && plainMembers members

end

mutual

/-- The tokens that spell a value without numbers. -/
def tokensOf : Json → List Token
  | .null => [.null]
  | .bool b => [.bool b]
  | .number _ => []
  | .string s => [.quoted (quotedOf s)]
  | .array [] => [.openArray, .closeArray]
  | .array (item :: items) => .openArray :: tokensOf item ++ itemTokens items ++ [.closeArray]
  | .object [] => [.openObject, .closeObject]
  | .object ((key, value) :: members) =>
      .openObject :: .quoted (quotedOf key) :: .colon :: tokensOf value ++ memberTokens members ++
        [.closeObject]

/-- The tokens of further items, each after a comma. -/
def itemTokens : List Json → List Token
  | [] => []
  | item :: items => .comma :: tokensOf item ++ itemTokens items

/-- The tokens of further members, each after a comma. -/
def memberTokens : List (String × Json) → List Token
  | [] => []
  | (key, value) :: members =>
      .comma :: .quoted (quotedOf key) :: .colon :: tokensOf value ++ memberTokens members

end

theorem tokens_blank (h : isBlank c) (cs : List Char) :
    tokens dialect (c :: cs) = tokens dialect cs := by
  rw [tokens, if_pos h]

theorem tokens_blanks {blanks : List Char} (h : blanks.all isBlank) (cs : List Char) :
    tokens dialect (blanks ++ cs) = tokens dialect cs := by
  induction blanks with
  | nil => rfl
  | cons c blanks ih =>
      rw [List.all_cons, Bool.and_eq_true] at h
      rw [List.cons_append, tokens_blank h.1, ih h.2]

theorem all_isBlank_newline (h : indent.all isBlank) (level : Nat) :
    (newline indent level).all isBlank := by
  rw [newline, List.all_cons, Bool.and_eq_true]
  refine ⟨rfl, ?_⟩
  rw [List.all_flatten, List.all_eq_true]
  intro part hpart
  rw [List.eq_of_mem_replicate hpart]
  exact h

theorem tokens_newline (h : indent.all isBlank) (level : Nat) (cs : List Char) :
    tokens dialect (newline indent level ++ cs) = tokens dialect cs :=
  tokens_blanks (all_isBlank_newline h level) cs

theorem tokens_of_readToken {token : Token} (hblank : isBlank c = false) (hslash : c ≠ '/')
    (h : readToken dialect c cs = (token, some rest)) :
    tokens dialect (c :: cs) = token :: tokens dialect rest := by
  rw [tokens, if_neg (by simp [hblank]), if_neg (by simp [hslash])]
  split
  next token' rest' h' =>
    rw [h] at h'
    cases h'
    rfl
  next token' h' =>
    rw [h] at h'
    cases h'

theorem tokens_punctuation {token : Token} (h : punctuation? c = some token) (cs : List Char) :
    tokens dialect (c :: cs) = token :: tokens dialect cs := by
  have hc : c = '[' ∨ c = ']' ∨ c = '{' ∨ c = '}' ∨ c = ',' ∨ c = ':' := by
    by_contra hnone
    simp only [not_or] at hnone
    simp [punctuation?, hnone] at h
  apply tokens_of_readToken
  · rcases hc with rfl | rfl | rfl | rfl | rfl | rfl <;> rfl
  · rcases hc with rfl | rfl | rfl | rfl | rfl | rfl <;> decide
  · rw [readToken, h]

theorem tokens_quote (s : String) (cs : List Char) :
    tokens dialect (quote s ++ cs) = .quoted (quotedOf s) :: tokens dialect cs := by
  have hquote : quote s ++ cs = '"' :: (s.toList.flatMap escape ++ '"' :: cs) := by
    simp [quote]
  rw [hquote]
  apply tokens_of_readToken rfl (by decide)
  simp [readToken, punctuation?, word?, readQuoted_quote, quotedOf]

mutual

/-- The text of a value is cut into the tokens that spell it, whatever follows. -/
theorem tokens_pretty (hindent : indent.all isBlank) (level : Nat) (rest : List Char) :
    ∀ v : Json, plain v → tokens dialect (pretty indent level v ++ rest) =
      tokensOf v ++ tokens dialect rest
  | .null, _ => by
      apply tokens_of_readToken rfl (by decide)
      rfl
  | .bool true, _ => by
      apply tokens_of_readToken rfl (by decide)
      rfl
  | .bool false, _ => by
      apply tokens_of_readToken rfl (by decide)
      rfl
  | .string s, _ => tokens_quote s rest
  | .array [], _ => by
      rw [pretty, List.cons_append, tokens_punctuation rfl, List.cons_append, tokens_punctuation rfl]
      rfl
  | .array (item :: items), h => by
      simp only [plain, plainItems, Bool.and_eq_true] at h
      simp only [pretty, tokensOf, List.cons_append, List.append_assoc]
      rw [tokens_punctuation rfl, tokens_newline hindent, tokens_pretty hindent _ _ item h.1,
        tokens_prettyItems hindent _ _ items h.2, tokens_newline hindent, List.nil_append,
        tokens_punctuation rfl]
      simp
  | .object [], _ => by
      rw [pretty, List.cons_append, tokens_punctuation rfl, List.cons_append, tokens_punctuation rfl]
      rfl
  | .object ((key, value) :: members), h => by
      simp only [plain, plainMembers, Bool.and_eq_true] at h
      simp only [pretty, tokensOf, List.cons_append, List.append_assoc]
      rw [tokens_punctuation rfl, tokens_newline hindent, tokens_quote, tokens_punctuation rfl,
        tokens_blank rfl, List.nil_append, tokens_pretty hindent _ _ value h.1,
        tokens_prettyMembers hindent _ _ members h.2, tokens_newline hindent, List.nil_append,
        tokens_punctuation rfl]
      simp

theorem tokens_prettyItems (hindent : indent.all isBlank) (level : Nat) (rest : List Char) :
    ∀ items : List Json, plainItems items →
      tokens dialect (prettyItems indent level items ++ rest) =
        itemTokens items ++ tokens dialect rest
  | [], _ => rfl
  | item :: items, h => by
      simp only [plainItems, Bool.and_eq_true] at h
      simp only [prettyItems, itemTokens, List.cons_append, List.append_assoc]
      rw [tokens_punctuation rfl, tokens_newline hindent, tokens_pretty hindent _ _ item h.1,
        tokens_prettyItems hindent _ _ items h.2]

theorem tokens_prettyMembers (hindent : indent.all isBlank) (level : Nat) (rest : List Char) :
    ∀ members : List (String × Json), plainMembers members →
      tokens dialect (prettyMembers indent level members ++ rest) =
        memberTokens members ++ tokens dialect rest
  | [], _ => rfl
  | (key, value) :: members, h => by
      simp only [plainMembers, Bool.and_eq_true] at h
      simp only [prettyMembers, memberTokens, List.cons_append, List.append_assoc]
      rw [tokens_punctuation rfl, tokens_newline hindent, tokens_quote, tokens_punctuation rfl,
        tokens_blank rfl, List.nil_append, tokens_pretty hindent _ _ value h.1,
        tokens_prettyMembers hindent _ _ members h.2]

end

/-! ## Documents -/

mutual

/-- The document of a value without numbers. -/
def nodeOf : Json → Node
  | .null => .null
  | .bool b => .bool b
  | .number _ => .badNumber .malformed
  | .string s => .string (quotedOf s)
  | .array items => .array (itemNodes items) .closed
  | .object members => .object (memberNodes members) .closed

def itemNodes : List Json → List Node
  | [] => []
  | item :: items => nodeOf item :: itemNodes items

def memberNodes : List (String × Json) → List (Quoted × Node)
  | [] => []
  | (key, value) :: members => (quotedOf key, nodeOf value) :: memberNodes members

end

/-- One more token is read where the document is not complete. -/
theorem build_cons {place place' : Place} {stack stack' : List Open} {token : Token}
    (hopen : match place, stack with | .next _, [] => False | _, _ => True)
    (hstep : step dialect stack token place = .ok (place', stack')) (tokens : List Token) :
    build dialect place stack (token :: tokens) = build dialect place' stack' tokens := by
  rw [build, hstep]
  rintro v rfl rfl
  exact hopen

mutual

/-- The tokens of a value build its document, inside of whatever containers. -/
theorem build_tokensOf (closable : Bool) (stack : List Open) (rest : List Token) :
    ∀ v : Json, plain v → build dialect (.value closable) stack (tokensOf v ++ rest) =
      build dialect (.next (nodeOf v)) stack rest
  | .null, _ => build_cons trivial rfl rest
  | .bool _, _ => build_cons trivial rfl rest
  | .string _, _ => build_cons trivial rfl rest
  | .array [], _ => (build_cons trivial rfl _).trans (build_cons trivial rfl rest)
  | .array (item :: items), h => by
      simp only [plain, plainItems, Bool.and_eq_true] at h
      simp only [tokensOf, List.cons_append, List.append_assoc, List.nil_append]
      rw [build_cons trivial rfl, build_tokensOf true _ _ item h.1,
        build_itemTokens [] (nodeOf item) _ _ items h.2]
      rfl
  | .object [], _ => (build_cons trivial rfl _).trans (build_cons trivial rfl rest)
  | .object ((key, value) :: members), h => by
      simp only [plain, plainMembers, Bool.and_eq_true] at h
      simp only [tokensOf, List.cons_append, List.append_assoc, List.nil_append]
      rw [build_cons trivial rfl, build_cons trivial rfl, build_cons trivial rfl,
        build_tokensOf false _ _ value h.1,
        build_memberTokens [] (quotedOf key) (nodeOf value) _ _ members h.2]
      rfl

/-- After an item, the tokens of further items and a bracket complete the array. -/
theorem build_itemTokens (done : List Node) (v : Node) (stack : List Open) (rest : List Token) :
    ∀ items : List Json, plainItems items →
      build dialect (.next v) (.array done :: stack) (itemTokens items ++ .closeArray :: rest) =
        build dialect (.next (.array (done.reverse ++ v :: itemNodes items) .closed)) stack rest
  | [], _ => by
      rw [itemTokens, List.nil_append, build_cons trivial rfl,
        List.reverse_cons]
      rfl
  | item :: items, h => by
      simp only [plainItems, Bool.and_eq_true] at h
      simp only [itemTokens, List.cons_append, List.append_assoc]
      rw [build_cons trivial rfl, build_tokensOf _ _ _ item h.1,
        build_itemTokens (v :: done) (nodeOf item) stack rest items h.2, List.reverse_cons,
        List.append_assoc]
      rfl

/-- After a member, the tokens of further members and a brace complete the object. -/
theorem build_memberTokens (done : List (Quoted × Node)) (key : Quoted) (v : Node)
    (stack : List Open) (rest : List Token) :
    ∀ members : List (String × Json), plainMembers members →
      build dialect (.next v) (.object done key :: stack)
        (memberTokens members ++ .closeObject :: rest) =
        build dialect (.next (.object (done.reverse ++ (key, v) :: memberNodes members) .closed))
          stack rest
  | [], _ => by
      rw [memberTokens, List.nil_append, build_cons trivial rfl,
        List.reverse_cons]
      rfl
  | (key', value) :: members, h => by
      simp only [plainMembers, Bool.and_eq_true] at h
      simp only [memberTokens, List.cons_append, List.append_assoc]
      rw [build_cons trivial rfl, build_cons trivial rfl,
        build_cons trivial rfl, build_tokensOf false _ _ value h.1,
        build_memberTokens ((key, v) :: done) (quotedOf key') (nodeOf value) stack rest members h.2,
        List.reverse_cons, List.append_assoc]
      rfl

end

/-- A file that holds a value without numbers is read as its document, and nothing follows. -/
theorem document_write (hindent : indent.all isBlank) {v : Json} (h : plain v) :
    document dialect (write indent v) = (nodeOf v, []) := by
  have hend : tokens dialect ['\n'] = [] := by
    rw [tokens_blank rfl, tokens]
  rw [document, write, String.toList_ofList, tokens_pretty hindent 0 ['\n'] v h, hend,
    build_tokensOf false [] [] v h, build]

/-- What a decoder reads from a table file is what it makes of the document. -/
theorem Decoder.read_text {α : Type} (decoder : Decoder α) {v : Json} (h : plain v) :
    decoder.read dialect v.text = decoder maxDepth (nodeOf v) := by
  rw [Decoder.read, text, document_write rfl h]
  cases hread : decoder maxDepth (nodeOf v) <;> simp [hread, bind, Except.bind, pure, Except.pure]

end Lexicolor.Json
