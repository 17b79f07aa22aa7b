import Lexicolor.Json.Number
import Lexicolor.Text.Hex
import Lexicolor.Text.Search
import Lexicolor.Text.Utf8

/-!
# JSON tokens

A text is cut into tokens up to its end or its first fault. The relaxed dialect
also skips comments wherever blanks may stand.
-/

namespace Lexicolor.Json

/-- What is wrong with a JSON text: it breaks the rules of the notation, it ends too early, or
its value has not the expected form. -/
inductive Fault where
  | malformed
  | truncated
  | mistyped
  deriving DecidableEq, Repr

def Fault.message : Fault → String
  | .malformed => "malformed JSON text"
  | .truncated => "JSON text ends too early"
  | .mistyped => "JSON value of an unexpected form"

/-- Which texts count as JSON: those of the standard, or also comments and one comma after the
last element. -/
inductive Dialect where
  | standard
  | relaxed
  deriving DecidableEq

/-- Parts of a string literal: a character, or a UTF-16 unit given by its number. -/
inductive Piece where
  | char (c : Char)
  | unit (n : Nat)
  /-- An escape that may stand only where the text of the literal is not looked at. -/
  | unread

/-- A string literal as far as it is well-formed, and what ends it early. -/
structure Quoted where
  pieces : List Piece
  fault : Option Fault

inductive Token where
  | openArray
  | closeArray
  | openObject
  | closeObject
  | comma
  | colon
  | null
  | bool (b : Bool)
  | number (n : Numeral)
  | quoted (q : Quoted)
  /-- A word or character that is no value. -/
  | junk (f : Fault)
  /-- What starts like a number but is none. -/
  | badNumber (f : Fault)
  /-- A comment that does not end, or a slash that starts none. -/
  | badBlank (f : Fault)

def isHighSurrogate (n : Nat) : Bool := 0xd800 ≤ n && n ≤ 0xdbff

def isLowSurrogate (n : Nat) : Bool := 0xdc00 ≤ n && n ≤ 0xdfff

/-- The characters of a string literal. Surrogates come in pairs, high before low. -/
def textOf (fault : Option Fault) : List Piece → Except Fault (List Char)
  | [] => match fault with
    | none => .ok []
    | some f => .error f
  | .char c :: pieces => (c :: ·) <$> textOf fault pieces
  | .unread :: _ => .error .malformed
  | .unit n :: pieces =>
      if isLowSurrogate n then .error .malformed
      else if isHighSurrogate n then
        match pieces with
        | [] => .error (fault.getD .malformed)
        | .unit m :: pieces =>
            if isLowSurrogate m then
              (Char.ofNat (0x10000 + (n - 0xd800) * 0x400 + (m - 0xdc00)) :: ·) <$>
                textOf fault pieces
            else .error .malformed
        | _ :: _ => .error .malformed
      else (Char.ofNat n :: ·) <$> textOf fault pieces

def Quoted.text (q : Quoted) : Except Fault String := String.ofList <$> textOf q.fault q.pieces

/-- The character that a backslash before `c` stands for. -/
def escaped? (c : Char) : Option Char :=
  if c = '"' ∨ c = '\\' ∨ c = '/' then some c
  else if c = 'b' then some '\x08'
  else if c = 'f' then some '\x0c'
  else if c = 'n' then some '\n'
  else if c = 'r' then some '\r'
  else if c = 't' then some '\t'
  else none

def Quoted.cons (p : Piece) : Quoted × List Char → Quoted × List Char
  | (q, rest) => (⟨p :: q.pieces, q.fault⟩, rest)

/-- A string literal after its opening quote, and the text after it. The relaxed dialect knows two
more escapes, a vertical tab and two hexadecimal digits, for literals that are not looked at. -/
def readQuoted (dialect : Dialect) : List Char → Quoted × List Char
  | [] => (⟨[], some .truncated⟩, [])
  | '\\' :: 'u' :: a :: b :: c :: d :: cs =>
      match Text.hexNumber? [a, b, c, d] with
      | some n => Quoted.cons (.unit n) (readQuoted dialect cs)
      | none => (⟨[], some .malformed⟩, [])
  | '\\' :: 'u' :: cs =>
      (⟨[], some (if Text.byteLength cs < 4 then .truncated else .malformed)⟩, [])
  | '\\' :: 'x' :: a :: b :: cs =>
      if dialect = .relaxed ∧ (Text.hexNumber? [a, b]).isSome then
        Quoted.cons .unread (readQuoted dialect cs)
      else (⟨[], some .malformed⟩, [])
  | '\\' :: 'x' :: cs =>
      if dialect = .relaxed ∧ Text.byteLength cs < 2 then (⟨[.unread], some .truncated⟩, [])
      else (⟨[], some .malformed⟩, [])
  | '\\' :: e :: cs =>
      match escaped? e with
      | some c => Quoted.cons (.char c) (readQuoted dialect cs)
      | none =>
          if dialect = .relaxed ∧ e = 'v' then Quoted.cons .unread (readQuoted dialect cs)
          else (⟨[], some .malformed⟩, [])
  | c :: cs =>
      if c = '"' then (⟨[], none⟩, cs)
      else if c = '\\' then (⟨[], some .truncated⟩, [])
      else if c.toNat < 0x20 then (⟨[], some .malformed⟩, [])
      else Quoted.cons (.char c) (readQuoted dialect cs)

theorem length_readQuoted_le (dialect : Dialect) (cs : List Char) :
    (readQuoted dialect cs).2.length ≤ cs.length := by
  fun_induction readQuoted dialect cs <;> simp_all [Quoted.cons] <;> omega

/-- The digits at the start of a text, and the text after them. -/
def spanDigits (cs : List Char) : List Char × List Char :=
  (cs.takeWhile Char.isDigit, cs.dropWhile Char.isDigit)

/-- One digit or more, needed here. -/
def someDigits (cs : List Char) : Except Fault (List Char × List Char) :=
  match cs with
  | [] => .error .truncated
  | c :: _ => if c.isDigit then .ok (spanDigits cs) else .error .malformed

theorem length_someDigits_lt {cs ds rest : List Char} (h : someDigits cs = .ok (ds, rest)) :
    rest.length < cs.length := by
  unfold someDigits at h
  split at h
  · contradiction
  · rename_i c cs
    split at h
    · rename_i hc
      cases h
      rw [List.dropWhile_cons_of_pos hc]
      exact Nat.lt_succ_of_le (List.dropWhile_sublist _).length_le
    · contradiction

/-- The digits before the point: a zero, or digits that do not start with one. -/
def wholeDigits (cs : List Char) : Except Fault (List Char × List Char) :=
  match cs with
  | '0' :: c :: rest => if c.isDigit then .error .malformed else .ok (['0'], c :: rest)
  | cs => someDigits cs

theorem length_wholeDigits_lt {cs ds rest : List Char} (h : wholeDigits cs = .ok (ds, rest)) :
    rest.length < cs.length := by
  unfold wholeDigits at h
  split at h
  · split at h
    · contradiction
    · cases h
      simp
  · exact length_someDigits_lt h

/-- The digits after a point, if there is one. -/
def fractionDigits (cs : List Char) : Except Fault (Option (List Char) × List Char) :=
  match cs with
  | '.' :: cs => (fun (ds, rest) => (some ds, rest)) <$> someDigits cs
  | cs => .ok (none, cs)

theorem length_fractionDigits_le {cs rest : List Char} {ds : Option (List Char)}
    (h : fractionDigits cs = .ok (ds, rest)) : rest.length ≤ cs.length := by
  unfold fractionDigits at h
  split at h
  · rename_i cs
    cases hd : someDigits cs with
    | error f => simp [hd, Functor.map, Except.map] at h
    | ok found =>
        obtain ⟨ds', rest'⟩ := found
        simp only [hd, Functor.map, Except.map, Except.ok.injEq, Prod.mk.injEq] at h
        have := length_someDigits_lt hd
        rw [← h.2, List.length_cons]
        omega
  · cases h
    exact Nat.le_refl _

/-- Whether the exponent is negative, and the text after its sign. -/
def exponentSign (cs : List Char) : Bool × List Char :=
  match cs with
  | '+' :: cs => (false, cs)
  | '-' :: cs => (true, cs)
  | cs => (false, cs)

def exponentDigits (cs : List Char) : Except Fault (Option (Bool × List Char) × List Char) :=
  match cs with
  | c :: rest =>
      if c = 'e' ∨ c = 'E' then
        let (negative, rest) := exponentSign rest
        (fun (ds, rest) => (some (negative, ds), rest)) <$> someDigits rest
      else .ok (none, cs)
  | [] => .ok (none, cs)

theorem length_exponentSign_le (cs : List Char) :
    (exponentSign cs).2.length ≤ cs.length := by
  unfold exponentSign
  split <;> simp

theorem length_exponentDigits_le {cs rest : List Char} {ds : Option (Bool × List Char)}
    (h : exponentDigits cs = .ok (ds, rest)) : rest.length ≤ cs.length := by
  unfold exponentDigits at h
  split at h
  · rename_i c cs
    split at h
    · cases hd : someDigits (exponentSign cs).2 with
      | error f => simp [hd, Functor.map, Except.map] at h
      | ok found =>
          obtain ⟨ds', rest'⟩ := found
          simp only [hd, Functor.map, Except.map, Except.ok.injEq, Prod.mk.injEq] at h
          have := length_someDigits_lt hd
          have := length_exponentSign_le cs
          rw [← h.2, List.length_cons]
          omega
    · cases h
      exact Nat.le_refl _
  · cases h
    exact Nat.le_refl _

/-- The number literal at the start of a text, and the text after it. -/
def readNumeral (cs : List Char) : Except Fault (Numeral × List Char) := do
  let negative := cs.head? = some '-'
  let (whole, cs) ← wholeDigits (if negative then cs.tail else cs)
  let (fraction, cs) ← fractionDigits cs
  let (exponent, cs) ← exponentDigits cs
  return (⟨negative, whole, fraction, exponent⟩, cs)

theorem length_readNumeral_lt {cs rest : List Char} {n : Numeral}
    (h : readNumeral cs = .ok (n, rest)) : rest.length < cs.length := by
  unfold readNumeral at h
  simp only [bind, Except.bind] at h
  split at h
  · contradiction
  rename_i whole hwhole
  split at h
  · contradiction
  rename_i fraction hfraction
  split at h
  · contradiction
  rename_i exponent hexponent
  simp only [pure, Except.pure, Except.ok.injEq, Prod.mk.injEq] at h
  have h₁ := length_wholeDigits_lt hwhole
  have h₂ := length_fractionDigits_le hfraction
  have h₃ := length_exponentDigits_le hexponent
  have h₄ : (if cs.head? = some '-' then cs.tail else cs).length ≤ cs.length := by
    split <;> simp
  rw [← h.2]
  omega

/-- The text after `word`, of which the first letter is read already. -/
def readWord (word cs : List Char) : Except Fault (List Char) :=
  match word, cs with
  | [], cs => .ok cs
  | _ :: _, [] => .error .truncated
  | w :: word, c :: cs => if w = c then readWord word cs else .error .malformed

theorem length_readWord_le {word cs rest : List Char} (h : readWord word cs = .ok rest) :
    rest.length ≤ cs.length := by
  fun_induction readWord word cs <;> simp_all
  all_goals omega

/-- The text after a comment, of which the first slash is read already. -/
def skipComment (cs : List Char) : Except Fault (List Char) :=
  match cs with
  | '/' :: cs => .ok (cs.dropWhile (· ≠ '\n'))
  | '*' :: _ => match Text.cut? ['*', '/'] cs with
    | some (_, rest) => .ok rest
    | none => .error .truncated
  | _ => .error .malformed

theorem length_skipComment_le {cs rest : List Char} (h : skipComment cs = .ok rest) :
    rest.length ≤ cs.length := by
  unfold skipComment at h
  split at h
  · cases h
    exact Nat.le_succ_of_le (List.dropWhile_sublist _).length_le
  · split at h
    · rename_i hcut
      cases h
      have := congrArg List.length (Text.eq_append_of_cut? hcut)
      simp only [List.length_append] at this
      omega
    · contradiction
  · contradiction

/-- Punctuation that is a token by itself. -/
def punctuation? (c : Char) : Option Token :=
  if c = '[' then some .openArray
  else if c = ']' then some .closeArray
  else if c = '{' then some .openObject
  else if c = '}' then some .closeObject
  else if c = ',' then some .comma
  else if c = ':' then some .colon
  else none

/-- The words that are values. -/
def word? (c : Char) : Option (List Char × Token) :=
  if c = 'n' then some ("ull".toList, .null)
  else if c = 't' then some ("rue".toList, .bool true)
  else if c = 'f' then some ("alse".toList, .bool false)
  else none

def isBlank (c : Char) : Bool := c == ' ' || c == '\n' || c == '\t' || c == '\r'

/-- The token that starts with `c`, and the text after it if more tokens may follow. -/
def readToken (dialect : Dialect) (c : Char) (cs : List Char) : Token × Option (List Char) :=
  match punctuation? c with
  | some token => (token, some cs)
  | none => match word? c with
    | some (word, token) => match readWord word cs with
      | .ok rest => (token, some rest)
      | .error f => (.junk f, none)
    | none =>
        if c = '"' then
          let (q, rest) := readQuoted dialect cs
          (.quoted q, if q.fault.isSome then none else some rest)
        else if c.isDigit || c == '-' then
          match readNumeral (c :: cs) with
          | .ok (n, rest) => (.number n, some rest)
          | .error f => (.badNumber f, none)
        else (.junk .malformed, none)

theorem length_readToken_le {dialect : Dialect} {c : Char} {cs rest : List Char} {token : Token}
    (h : readToken dialect c cs = (token, some rest)) : rest.length ≤ cs.length := by
  unfold readToken at h
  split at h
  · simp only [Prod.mk.injEq, Option.some.injEq] at h
    exact Nat.le_of_eq (congrArg List.length h.2.symm)
  · split at h
    · split at h
      · rename_i hword
        simp only [Prod.mk.injEq, Option.some.injEq] at h
        rw [← h.2]
        exact length_readWord_le hword
      · simp at h
    · split at h
      · simp only [Prod.mk.injEq, Option.ite_none_left_eq_some, Option.some.injEq] at h
        rw [← h.2.2]
        exact length_readQuoted_le dialect cs
      · split at h
        · split at h
          · rename_i hnumeral
            simp only [Prod.mk.injEq, Option.some.injEq] at h
            rw [← h.2]
            exact Nat.le_of_lt_succ (length_readNumeral_lt hnumeral)
          · simp at h
        · simp at h

/-- The tokens of a text up to its end or first fault. -/
def tokens (dialect : Dialect) : List Char → List Token
  | [] => []
  | c :: cs =>
      if isBlank c then tokens dialect cs
      else if c = '/' ∧ dialect = .relaxed then
        match _h : skipComment cs with
        | .ok rest => tokens dialect rest
        | .error f => [.badBlank f]
      else match _h : readToken dialect c cs with
        | (token, some rest) => token :: tokens dialect rest
        | (token, none) => [token]
termination_by cs => cs.length
decreasing_by
  · simp
  · have := length_skipComment_le _h
    simp only [List.length_cons]; omega
  · have := length_readToken_le _h
    simp only [List.length_cons]; omega

end Lexicolor.Json
