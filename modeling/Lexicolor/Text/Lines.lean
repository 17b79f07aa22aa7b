/-!
# Lines

A line ends with a line feed, which is not part of it, nor is one carriage
return before it. A last line without line feed keeps its carriage return, and
a text that ends with a line feed has no empty last line.
-/

namespace Lexicolor.Text

/-- A line without the carriage return at its end. -/
def chopReturn (line : List Char) : List Char :=
  if line.getLast? = some '\r' then line.dropLast else line

theorem length_dropWhile_tail_lt {p : Char → Bool} {cs rest : List Char} {c : Char}
    (h : cs.dropWhile p = c :: rest) : rest.length < cs.length := by
  have := (List.dropWhile_sublist (l := cs) p).length_le
  rw [h, List.length_cons] at this
  omega

/-- The lines of a text. -/
def lines (cs : List Char) : List (List Char) :=
  if cs.isEmpty then []
  else
    let line := cs.takeWhile (· ≠ '\n')
    match _h : cs.dropWhile (· ≠ '\n') with
    | [] => [line]
    | _ :: rest => chopReturn line :: lines rest
termination_by cs.length
decreasing_by exact length_dropWhile_tail_lt _h

/-- The lines, each ended by a line feed. -/
def unlines (lines : List (List Char)) : List Char := lines.flatMap (· ++ ['\n'])

end Lexicolor.Text
