/-!
# Words of a compound name

A word is an acronym or a run of small letters and digits, which one capital
may start. An acronym is a run of capitals that ends the text, or all but the
last of a run before a small letter. Other characters belong to no word.
-/

namespace Lexicolor.Scope

def isCapital (c : Char) : Bool := c.isUpper

def isSmall (c : Char) : Bool := c.isLower || c.isDigit

/-- The length of the word at the start of a text; zero when there is none. -/
def wordLength (cs : List Char) : Nat :=
  let capitals := (cs.takeWhile isCapital).length
  match cs.drop capitals with
  | [] => capitals
  | c :: rest =>
      if 2 ≤ capitals then if c.isLower then capitals - 1 else 0
      else
        let small := ((c :: rest).takeWhile isSmall).length
        if small = 0 then 0 else capitals + small

/-- The words of a text from left to right. -/
def words (cs : List Char) : List (List Char) :=
  match cs with
  | [] => []
  | c :: rest =>
      if wordLength (c :: rest) = 0 then words rest
      else
        (c :: rest).take (wordLength (c :: rest)) ::
          words ((c :: rest).drop (wordLength (c :: rest)))
termination_by cs.length
decreasing_by
  · simp
  · simp only [List.length_drop, List.length_cons]; omega

end Lexicolor.Scope
