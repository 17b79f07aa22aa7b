import Lexicolor.Unicode.Word

/-!
# Places in a text

A place lies before, between or after the characters of a text. Assertions ask
only for the characters on its two sides.
-/

namespace Lexicolor.Pattern

/-- A place in a text: the character before it, and what follows. -/
structure Spot where
  last : Option Char
  rest : List Char
  deriving DecidableEq

namespace Spot

def start (text : List Char) : Spot := ⟨none, text⟩

/-- The places in a text from one on: `last` is the character before it. -/
def onwards (last : Option Char) : List Char → List Spot
  | [] => [⟨last, []⟩]
  | c :: cs => ⟨last, c :: cs⟩ :: onwards (some c) cs

def wordBefore (s : Spot) : Bool := s.last.any Unicode.isWord

def wordAfter (s : Spot) : Bool := s.rest.head?.any Unicode.isWord

end Spot

/-- What can be asked of a place in a text. -/
inductive Assertion where
  | textStart
  | textEnd
  | lineStart
  | lineEnd
  /-- A word character on exactly one side. -/
  | boundary
  | noBoundary
  | wordStart
  | wordEnd
  | noWordBefore
  | noWordAfter

/-- The assertion is true of the place. -/
def Assertion.holds : Assertion → Spot → Bool
  | textStart, s => s.last.isNone
  | textEnd, s => s.rest.isEmpty
  | lineStart, s => s.last.all (· == '\n')
  | lineEnd, s => s.rest.head?.all (· == '\n')
  | boundary, s => s.wordBefore != s.wordAfter
  | noBoundary, s => s.wordBefore == s.wordAfter
  | wordStart, s => !s.wordBefore && s.wordAfter
  | wordEnd, s => s.wordBefore && !s.wordAfter
  | noWordBefore, s => !s.wordBefore
  | noWordAfter, s => !s.wordAfter

end Lexicolor.Pattern
