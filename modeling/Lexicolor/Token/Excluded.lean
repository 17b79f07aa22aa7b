import Lexicolor.Text.Blank
import Lexicolor.Text.Search
import Lexicolor.Token.Comments

/-!
# Characters without tokens

Comments, literals and the targets of include directives hold no tokens. Every
line has a mask that tells for each character whether it is excluded.
-/

namespace Lexicolor.Token

open Text

/-- For each character of a text whether it is marked. -/
abbrev Mask := List Bool

/-- Marks the characters that start in one of the regions. The text starts at the offset. -/
def regionMask (regions : List Region) (offset : Nat) : List Char → Mask
  | [] => []
  | c :: cs =>
      regions.any (·.holds offset) :: regionMask regions (offset + c.utf8Size) cs

/-- The number of characters of a literal after its opening quote, up to the closing one. A
backslash takes the character after it along. -/
def literalLength? (quote : Char) : List Char → Option Nat
  | [] => none
  -- a backslash at the end leaves the literal open
  | '\\' :: cs => match cs with
    | [] => none
    | _ :: cs => (literalLength? quote cs).map (· + 2)
  | c :: cs => if c = quote then some 1 else (literalLength? quote cs).map (· + 1)

/-- Marks the string and character literals of a line; a quote without a closing one starts
none. -/
def literalMask : List Char → Mask
  | [] => []
  | c :: cs =>
      match if c = '"' ∨ c = '\'' then literalLength? c cs else none with
      | some n => true :: List.replicate n true ++ literalMask (cs.drop n)
      | none => false :: literalMask cs
termination_by cs => cs.length
decreasing_by all_goals simp only [List.length_drop, List.length_cons]; omega

/-- The text after the head of an include directive. -/
def afterInclude? (line : List Char) : Option (List Char) := do
  let cs ← after? ['#'] (dropBlanks line)
  after? ['i', 'n', 'c', 'l', 'u', 'd', 'e'] (dropBlanks cs)

/-- Where the target in angle brackets of an include directive starts, and its length. -/
def includeTarget? (line : List Char) : Option (Nat × Nat) := do
  let rest ← afterInclude? line
  let (_, inside) ← cut? ['<'] rest
  let (target, _) ← cut? ['>'] inside
  return (line.length - inside.length - 1, target.length + 2)

/-- Marks the target of an include directive. -/
def includeMask (line : List Char) : Mask :=
  match includeTarget? line with
  | some (start, length) =>
      List.replicate start false ++ List.replicate length true ++
        List.replicate (line.length - start - length) false
  | none => List.replicate line.length false

/-- Marks what holds no tokens, and tells whether a block comment is open after the line. -/
def excluded (inBlock : Bool) (line : List Char) : Mask × Bool :=
  let (comments, inBlock) := comments inBlock line
  let others := List.zipWith (· || ·) (literalMask line) (includeMask line)
  (List.zipWith (· || ·) (regionMask comments 0 line) others, inBlock)

end Lexicolor.Token
