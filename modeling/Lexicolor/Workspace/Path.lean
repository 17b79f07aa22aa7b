/-!
# Paths

A path is a text whose components are separated by slashes. Empty components
and single dots count only at the start: a slash makes the path absolute, a dot
stands for the directory itself.
-/

namespace Lexicolor.Path

inductive Component where
  | root
  | here
  | up
  | name (text : List Char)
  deriving DecidableEq

/-- The path of `other` as seen from `base`; an absolute path stays as it is. -/
def join (base other : List Char) : List Char :=
  if other.head? = some '/' ∨ base = [] then other
  else if base.getLast? = some '/' then base ++ other
  else base ++ '/' :: other

/-- The component that a piece between slashes gives; empty pieces and dots give none. -/
def component? (piece : List Char) : Option Component :=
  if piece = [] ∨ piece = ['.'] then none
  else if piece = ['.', '.'] then some .up
  else some (.name piece)

def pieceOf (cs : List Char) : List Char := cs.takeWhile (· ≠ '/')

/-- The text after a piece and its slash. -/
def afterPiece (cs : List Char) : List Char := (cs.dropWhile (· ≠ '/')).tail

theorem length_afterPiece_lt {cs : List Char} (h : cs ≠ []) :
    (afterPiece cs).length < cs.length := by
  have := (List.dropWhile_sublist (l := cs) (· ≠ '/')).length_le
  have : 0 < cs.length := List.length_pos_iff.mpr h
  unfold afterPiece
  rw [List.length_tail]
  omega

/-- The first component of the rest of a path, and what follows it. -/
def next? (cs : List Char) : Option (Component × List Char) :=
  if _h : cs = [] then none
  else match component? (pieceOf cs) with
    | some component => some (component, afterPiece cs)
    | none => next? (afterPiece cs)
termination_by cs.length
decreasing_by exact length_afterPiece_lt _h

/-- The pieces at the start that give no component are left out. -/
def trimStart (cs : List Char) : List Char :=
  if _h : cs = [] then []
  else match component? (pieceOf cs) with
    | some _ => cs
    | none => trimStart (afterPiece cs)
termination_by cs.length
decreasing_by exact length_afterPiece_lt _h

/-- A dot at the start of a relative path. -/
def startsHere (path : List Char) : Bool := pieceOf path == ['.']

/-- The first component of a path, and what follows it. -/
def first? (path : List Char) : Option (Component × List Char) :=
  if path.head? = some '/' then some (.root, path.tail)
  else if startsHere path then some (.here, path.tail)
  else next? path

theorem length_of_next? {cs rest : List Char} {component : Component}
    (h : next? cs = some (component, rest)) : rest.length < cs.length := by
  fun_induction next? cs with
  | case1 => contradiction
  | case2 cs hcs component' =>
      cases h
      exact length_afterPiece_lt hcs
  | case3 cs hcs _ ih => exact Nat.lt_trans (ih h) (length_afterPiece_lt hcs)

/-- The components of the rest of a path. -/
def componentsOfRest (cs : List Char) : List Component :=
  match _h : next? cs with
  | some (component, rest) => component :: componentsOfRest rest
  | none => []
termination_by cs.length
decreasing_by exact length_of_next? _h

/-- The components of a path. -/
def components (path : List Char) : List Component :=
  match first? path with
  | some (component, rest) => component :: componentsOfRest rest
  | none => []

/-- The length of what stands before the pieces of a path: a slash, or a dot. -/
def headLength (path : List Char) : Nat :=
  if path.head? = some '/' ∨ startsHere path then 1 else 0

/-- The last piece after the first `head` characters. -/
def lastPiece (head : Nat) (path : List Char) : List Char :=
  ((path.drop head).reverse.takeWhile (· ≠ '/')).reverse

/-- The path before its last piece and that piece's slash. -/
def beforeLast (head : Nat) (path : List Char) : List Char :=
  let piece := lastPiece head path
  let slash := if piece.length < path.length - head then 1 else 0
  path.take (path.length - piece.length - slash)

theorem length_beforeLast_lt {head : Nat} {path : List Char} (h : head < path.length) :
    (beforeLast head path).length < path.length := by
  simp only [beforeLast, List.length_take]
  split
  · omega
  · have : 0 < path.length := by omega
    omega

/-- The pieces at the end that give no component are left out. -/
def trimEnd (head : Nat) (path : List Char) : List Char :=
  if _h : head < path.length then
    match component? (lastPiece head path) with
    | some _ => path
    | none => trimEnd head (beforeLast head path)
  else path
termination_by path.length
decreasing_by exact length_beforeLast_lt _h

theorem length_trimEnd_le (head : Nat) (path : List Char) :
    (trimEnd head path).length ≤ path.length := by
  fun_induction trimEnd head path with
  | case1 => exact Nat.le_refl _
  | case2 path hlt _ ih => exact Nat.le_trans ih (Nat.le_of_lt (length_beforeLast_lt hlt))
  | case3 => exact Nat.le_refl _

/-- What follows the components in the rest of a path. -/
def afterComponents? : List Component → List Char → Option (List Char)
  | [], cs => some cs
  | c :: components, cs => match next? cs with
    | some (component, rest) => if component = c then afterComponents? components rest else none
    | none => none

/-- The path as seen from `base`, if it starts with the components of `base`. -/
def relative? (base path : List Char) : Option (List Char) :=
  match components base with
  | [] => some (trimEnd (headLength path) path)
  | c :: components => do
      let (component, rest) ← first? path
      guard (component = c)
      let rest ← afterComponents? components rest
      return trimEnd 0 (trimStart rest)

/-- The path as seen from `base`, or the path itself. -/
def relativeTo (base path : List Char) : List Char := (relative? base path).getD path

/-- The path before its last component; there is none for the root and the empty path. -/
def parent? (path : List Char) : Option (List Char) :=
  let head := headLength path
  let trimmed := trimEnd head path
  if head < trimmed.length then some (trimEnd head (beforeLast head trimmed))
  else if startsHere path then some []
  else none

theorem length_parent?_lt {path parent : List Char} (h : parent? path = some parent) :
    parent.length < path.length := by
  unfold parent? at h
  simp only at h
  split at h
  · rename_i hlt
    cases h
    exact Nat.lt_of_le_of_lt (length_trimEnd_le _ _)
      (Nat.lt_of_lt_of_le (length_beforeLast_lt hlt) (length_trimEnd_le _ _))
  · split at h
    · rename_i hhere
      cases h
      cases path with
      | nil => simp [startsHere, pieceOf] at hhere
      | cons => simp
    · contradiction

end Lexicolor.Path
