import Lexicolor.Pattern.Basic

/-!
# Matches in progress

To find out whether some part of a text matches, all matches are followed at
once: every character class of a pattern holds a mark if a match in progress has
just taken a character there. One pass over the text moves the marks, so the
effort grows with the text and the pattern only.
-/

namespace Lexicolor.Pattern

/-- A pattern with marks. Repetitions with numbers are spelled out. -/
inductive Progress where
  | empty
  | place (a : Assertion)
  | one (c : CharClass) (mark : Bool)
  | seq (a b : Progress)
  | alt (a b : Progress)
  | many (a : Progress)

namespace Progress

/-- `n` times `p`, and then `next`. -/
def times (p next : Progress) : Nat → Progress
  | 0 => next
  | n + 1 => seq p (times p next n)

/-- Up to `n` times `p`. -/
def upTo (p : Progress) : Nat → Progress
  | 0 => empty
  | n + 1 => alt (seq p (upTo p n)) empty

/-- The pattern without marks. In a text with fewer characters than `bound`, more than `bound`
repetitions match nothing new. -/
def ofPattern (bound : Nat) : Pattern → Progress
  | .empty => empty
  | .one c => one c false
  | .place a => place a
  | .seq a b => seq (ofPattern bound a) (ofPattern bound b)
  | .alt a b => alt (ofPattern bound a) (ofPattern bound b)
  | .repeated p least extra _ =>
      let p := ofPattern bound p
      let more := match extra with
        | none => many p
        | some n => upTo p (min n bound)
      times p more (min least bound)

/-- The pattern matches nothing at `s`. -/
def skips (s : Spot) : Progress → Bool
  | empty => true
  | place a => a.holds s
  | one _ _ => false
  | seq a b => a.skips s && b.skips s
  | alt a b => a.skips s || b.skips s
  | many _ => true

/-- Some match in progress may end at `s`. -/
def stops (s : Spot) : Progress → Bool
  | empty => false
  | place _ => false
  | one _ mark => mark
  | seq a b => b.stops s || (b.skips s && a.stops s)
  | alt a b => a.stops s || b.stops s
  | many a => a.stops s

/-- Moves the marks over `c`, which follows the spot `s`; with `enter`, matches start there
too. -/
def advance (s : Spot) (c : Char) (enter : Bool) : Progress → Progress
  | empty => empty
  | place a => place a
  | one set _ => one set (enter && set.holds c)
  | seq a b => seq (a.advance s c enter) (b.advance s c (a.stops s || (enter && a.skips s)))
  | alt a b => alt (a.advance s c enter) (b.advance s c enter)
  | many a => many (a.advance s c (a.stops s || enter))

/-- Some match, one in progress or one that starts from here on, ends in the text. -/
def reaches (p : Progress) (last : Option Char) : List Char → Bool
  | [] => p.skips ⟨last, []⟩ || p.stops ⟨last, []⟩
  | c :: cs =>
      let s : Spot := ⟨last, c :: cs⟩
      p.skips s || p.stops s || (p.advance s c true).reaches (some c) cs

end Progress

/-- Some part of the text matches. -/
def isIn (p : Pattern) (text : List Char) : Bool :=
  (Progress.ofPattern (text.length + 1) p).reaches none text

end Lexicolor.Pattern
