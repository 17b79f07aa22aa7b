import Lexicolor.Pattern.CharClass
import Lexicolor.Pattern.Spot

/-!
# Patterns

Regular expressions over characters, with assertions about the place in the
text. Alternatives and repetitions have an order of preference, which decides
between several matches at one place.
-/

namespace Lexicolor

inductive Pattern where
  | empty
  | one (c : CharClass)
  | place (a : Pattern.Assertion)
  | seq (a b : Pattern)
  /-- `a` is preferred to `b`. -/
  | alt (a b : Pattern)
  /-- From `min` to `min + extra` repetitions, or without upper limit; a greedy repetition
  prefers many. -/
  | repeated (p : Pattern) (min : Nat) (extra : Option Nat) (greedy : Bool)

namespace Pattern

def char (c : Char) : Pattern := one (.single c)

def seqAll (parts : List Pattern) : Pattern := parts.foldr seq empty

/-- The alternatives in order of preference; there is at least one. -/
def altAll : List Pattern → Pattern
  | [] => empty
  | [p] => p
  | p :: parts => alt p (altAll parts)

/-- `n` steps from each of the spots. -/
def exactly (step : Spot → List Spot) : Nat → List Spot → List Spot
  | _, [] => []
  | 0, spots => spots
  | n + 1, spot :: spots => exactly step n ((spot :: spots).flatMap step).eraseDups

/-- Up to `n` steps. One that stays in place is the last. -/
def upTo (step : Spot → List Spot) (greedy : Bool) : Nat → Spot → List Spot
  | 0, s => [s]
  | n + 1, s =>
      let further := (step s).flatMap fun t =>
        if t.rest.length < s.rest.length then upTo step greedy n t else [t]
      (if greedy then further ++ [s] else s :: further).eraseDups

/-- Where matches that start at a spot end, in order of preference. -/
def ends : Pattern → Spot → List Spot
  | empty, s => [s]
  | one c, s => match s.rest with
    | [] => []
    | x :: rest => if c.holds x then [⟨some x, rest⟩] else []
  | place a, s => if a.holds s then [s] else []
  | seq a b, s => ((a.ends s).flatMap b.ends).eraseDups
  | alt a b, s => (a.ends s ++ b.ends s).eraseDups
  | repeated p min extra greedy, s =>
      ((exactly p.ends min [s]).flatMap fun t =>
        -- without a limit, no more steps can advance than characters are left
        upTo p.ends greedy (extra.getD t.rest.length) t).eraseDups

/-- The preferred match at a spot, as its end. -/
def matchAt? (p : Pattern) (s : Spot) : Option Spot := (p.ends s).head?

/-- The whole text matches. -/
def fits (p : Pattern) (text : List Char) : Bool :=
  (p.ends (.start text)).any fun s => s.rest.isEmpty

end Pattern

end Lexicolor
