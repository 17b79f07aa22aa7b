import Lexicolor.Pattern.Basic
import Lexicolor.Text.Hex
import Lexicolor.Text.Search

/-!
# Pattern notation: escapes

The text of a pattern is cut into characters that stand as written and escapes.
Writing a text with its special characters escaped gives a pattern for that text
alone.
-/

namespace Lexicolor

/-- Why a text is no pattern. -/
inductive PatternError where
  | badEscape
  | badClass
  | badGroup
  | lookAround
  | badRepetition
  | unclosedClass
  | unclosedGroup
  | unopenedGroup
  | tooDeep
  deriving DecidableEq, Repr

def PatternError.message : PatternError → String
  | .badEscape => "unrecognized escape sequence"
  | .badClass => "invalid character class"
  | .badGroup => "invalid group name or flags"
  | .lookAround => "look-around is not supported"
  | .badRepetition => "invalid repetition"
  | .unclosedClass => "unclosed character class"
  | .unclosedGroup => "unclosed group"
  | .unopenedGroup => "unopened group"
  | .tooDeep => "too many levels of nesting"

namespace Pattern

/-- The smallest parts of a pattern's text. -/
inductive Lexeme where
  /-- A character as written. -/
  | plain (c : Char)
  /-- An escape for a character. -/
  | literal (c : Char)
  /-- An escape for a class of characters. -/
  | set (c : CharClass)
  /-- An escape for an assertion. -/
  | place (a : Assertion)

/-- The characters with a meaning of their own somewhere in a pattern. -/
def isSpecial (c : Char) : Bool :=
  c ∈ ['\\', '.', '+', '*', '?', '(', ')', '|', '[', ']', '\x7b', '\x7d', '^', '$', '#', '&', '-',
    '~']

/-- Characters that stand for themselves after a backslash. -/
def isEscapable (c : Char) : Bool :=
  isSpecial c || (c.toNat < 128 && !c.isAlphanum && c != '<' && c != '>')

/-- The escapes of one letter. -/
def letterEscape? (c : Char) : Option Lexeme :=
  match c with
  | 'd' => some (.set .digit)
  | 'D' => some (.set (.negated .digit))
  | 's' => some (.set .blank)
  | 'S' => some (.set (.negated .blank))
  | 'w' => some (.set .word)
  | 'W' => some (.set (.negated .word))
  | 'B' => some (.place .noBoundary)
  | '<' => some (.place .wordStart)
  | '>' => some (.place .wordEnd)
  | 'A' => some (.place .textStart)
  | 'z' => some (.place .textEnd)
  | 'a' => some (.literal '\x07')
  | 'f' => some (.literal '\x0c')
  | 't' => some (.literal '\t')
  | 'n' => some (.literal '\n')
  | 'r' => some (.literal '\r')
  | 'v' => some (.literal '\x0b')
  | _ => none

/-- The number of digits after the letter of a hexadecimal escape without braces. -/
def hexWidth? (c : Char) : Option Nat :=
  match c with
  | 'x' => some 2
  | 'u' => some 4
  | 'U' => some 8
  | _ => none

/-- The escape for the character whose code point the digits spell. -/
def codePoint (digits : List Char) : Except PatternError Lexeme :=
  match Text.hexNumber? digits with
  | some n => if n.isValidChar then .ok (.literal (Char.ofNat n)) else .error .badEscape
  | none => .error .badEscape

/-- The digits of a hexadecimal escape, and the text after it. -/
def hexDigits (width : Nat) (cs : List Char) : List Char × List Char :=
  match cs with
  | '\x7b' :: cs => (Text.before '\x7d' cs, (cs.dropWhile (· ≠ '\x7d')).tail)
  | cs => (cs.take width, cs.drop width)

/-- The hexadecimal escape after its letter is complete. -/
def hexComplete (width : Nat) (cs : List Char) : Bool :=
  match cs with
  | '\x7b' :: cs => cs.contains '\x7d'
  | cs => width ≤ cs.length

theorem length_hexDigits_le (width : Nat) (cs : List Char) :
    (hexDigits width cs).2.length ≤ cs.length := by
  unfold hexDigits
  split
  · rename_i cs
    have := (List.dropWhile_sublist (l := cs) (· ≠ '\x7d')).length_le
    simp only [List.length_tail, List.length_cons]
    omega
  · simp

/-- The kinds of boundaries with a name of their own. -/
def boundaryNamed? (name : String) : Option Assertion :=
  match name with
  | "start" => some .wordStart
  | "end" => some .wordEnd
  | "start-half" => some .noWordBefore
  | "end-half" => some .noWordAfter
  | _ => none

/-- The escape for a boundary, after its letter. A name in braces gives its kind; braces that hold
anything else belong to a repetition. -/
def boundaryEscape (cs : List Char) : Except PatternError (Lexeme × List Char) :=
  match cs with
  | '\x7b' :: rest =>
      let name := rest.takeWhile fun c => c.isAlpha || c == '-'
      if name.isEmpty then .ok (.place .boundary, cs)
      else match boundaryNamed? (String.ofList name), rest.drop name.length with
        | some a, '\x7d' :: rest => .ok (.place a, rest)
        | _, _ => .error .badEscape
  | cs => .ok (.place .boundary, cs)

theorem length_boundaryEscape_le {cs rest : List Char} {lexeme : Lexeme}
    (h : boundaryEscape cs = .ok (lexeme, rest)) : rest.length ≤ cs.length := by
  unfold boundaryEscape at h
  split at h
  · simp only at h
    split at h
    · cases h
      exact Nat.le_refl _
    · split at h
      · rename_i hdrop
        cases h
        have := congrArg List.length hdrop
        simp only [List.length_drop, List.length_cons] at this ⊢
        omega
      · contradiction
  · cases h
    exact Nat.le_refl _

/-- The escape whose backslash stands before `c`. -/
def escapeAt (c : Char) (cs : List Char) : Except PatternError (Lexeme × List Char) :=
  if isEscapable c then .ok (.literal c, cs)
  else if c = 'b' then boundaryEscape cs
  else match letterEscape? c with
    | some lexeme => .ok (lexeme, cs)
    | none => match hexWidth? c with
      | some width =>
          if hexComplete width cs then
            (·, (hexDigits width cs).2) <$> codePoint (hexDigits width cs).1
          else .error .badEscape
      | none => .error .badEscape

theorem length_escapeAt_le {c : Char} {cs rest : List Char} {lexeme : Lexeme}
    (h : escapeAt c cs = .ok (lexeme, rest)) : rest.length ≤ cs.length := by
  unfold escapeAt at h
  split at h
  · cases h
    exact Nat.le_refl _
  · split at h
    · exact length_boundaryEscape_le h
    · split at h
      · cases h
        exact Nat.le_refl _
      · split at h
        · rename_i width _
          split at h
          · cases hc : codePoint (hexDigits width cs).1 with
            | error e => simp [hc, Functor.map, Except.map] at h
            | ok found =>
                simp only [hc, Functor.map, Except.map, Except.ok.injEq, Prod.mk.injEq] at h
                exact h.2 ▸ length_hexDigits_le width cs
          · contradiction
        · contradiction

/-- The lexemes of a pattern's text. -/
def lexemes : List Char → Except PatternError (List Lexeme)
  | [] => .ok []
  | c :: cs =>
      if c = '\\' then
        match cs with
        | [] => .error .badEscape
        | e :: cs =>
            match _h : escapeAt e cs with
            | .ok (lexeme, rest) => (lexeme :: ·) <$> lexemes rest
            | .error e => .error e
      else (.plain c :: ·) <$> lexemes cs
termination_by cs => cs.length
decreasing_by
  · have := length_escapeAt_le _h
    simp only [List.length_cons]; omega
  · simp

/-- The text with its special characters escaped. -/
def escape (cs : List Char) : List Char :=
  cs.flatMap fun c => if isSpecial c then ['\\', c] else [c]

end Pattern

end Lexicolor
