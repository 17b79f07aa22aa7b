import Lexicolor.Pattern.Lexeme

/-!
# Pattern notation: flags and classes in brackets

The members of a class are characters, ranges, escapes, named classes and
classes in brackets of their own. Two classes may be combined inside the
brackets; a hat at the start negates the result.
-/

namespace Lexicolor.Pattern

structure Flags where
  ignoreCase : Bool := false
  /-- `^` and `$` also match at the ends of lines. -/
  multiLine : Bool := false
  /-- `.` also matches line feeds. -/
  dotAll : Bool := false
  /-- Repetitions are lazy without `?` and greedy with it. -/
  swapGreed : Bool := false

namespace Flags

def closeCase (flags : Flags) (c : CharClass) : CharClass :=
  if flags.ignoreCase then .anyCase c else c

/-- A character that stands for itself. -/
def char (flags : Flags) (c : Char) : Pattern := one (flags.closeCase (.single c))

/-- A character as written outside classes, groups and repetitions. -/
def plain (flags : Flags) (c : Char) : Pattern :=
  if c = '.' then
    if flags.dotAll then one (.negated .nothing) else one (.negated (.single '\n'))
  else if c = '^' then place (if flags.multiLine then .lineStart else .textStart)
  else if c = '$' then place (if flags.multiLine then .lineEnd else .textEnd)
  else flags.char c

/-- The flags with the one named `c` set to `on`. -/
def assign? (flags : Flags) (c : Char) (on : Bool) : Option Flags :=
  match c with
  | 'i' => some { flags with ignoreCase := on }
  | 'm' => some { flags with multiLine := on }
  | 's' => some { flags with dotAll := on }
  | 'U' => some { flags with swapGreed := on }
  | _ => none

end Flags

/-- A part of a pattern, and the number of levels in its notation. -/
structure Leveled (α : Type) where
  value : α
  levels : Nat

/-- The levels of parts in a row: more than one part makes a level of its own. -/
def rowLevels : List Nat → Nat
  | [] => 0
  | [levels] => levels
  | levels => levels.foldl max 0 + 1

theorem foldl_max_le {levels : List Nat} {m n : Nat} (hm : m ≤ n) (h : ∀ l ∈ levels, l ≤ n) :
    levels.foldl max m ≤ n := by
  induction levels generalizing m with
  | nil => exact hm
  | cons l levels ih =>
      obtain ⟨hl, hlevels⟩ := List.forall_mem_cons.mp h
      exact ih (Nat.max_le.mpr ⟨hm, hl⟩) hlevels

theorem rowLevels_le {levels : List Nat} {n : Nat} (h : ∀ l ∈ levels, l ≤ n) :
    rowLevels levels ≤ n + 1 := by
  unfold rowLevels
  split
  · exact Nat.zero_le _
  · exact Nat.le_succ_of_le (h _ List.mem_cons_self)
  · exact Nat.succ_le_succ (foldl_max_le (Nat.zero_le n) h)

/-- What stands between two parts of a class. -/
inductive SetOp where
  | inter
  | diff
  | either

def SetOp.combine : SetOp → CharClass → CharClass → CharClass
  | .inter => .inter
  | .diff => .diff
  | .either => .either

/-- A class that is not closed yet: what stands before the last operator, and after it. -/
structure OpenSet where
  negated : Bool
  left : Option (Leveled CharClass × SetOp)
  members : List (Leveled CharClass)

namespace OpenSet

def push (s : OpenSet) (c : Leveled CharClass) : OpenSet := { s with members := c :: s.members }

/-- The class without its negation. -/
def content (flags : Flags) (s : OpenSet) : Leveled CharClass :=
  let right := CharClass.unionAll (s.members.map Leveled.value).reverse
  let levels := rowLevels (s.members.map Leveled.levels)
  match s.left with
  | none => ⟨right, levels⟩
  | some (left, op) =>
      ⟨op.combine (flags.closeCase left.value) (flags.closeCase right),
        max left.levels levels + 1⟩

def split (flags : Flags) (s : OpenSet) (op : SetOp) : OpenSet :=
  { s with left := some (s.content flags, op), members := [] }

def close (flags : Flags) (s : OpenSet) : Leveled CharClass :=
  let content := s.content flags
  let set := flags.closeCase content.value
  ⟨if s.negated then .negated set else set, content.levels + 1⟩

end OpenSet

/-- Whether a hat comes first, and the lexemes after it. -/
def takeHat : List Lexeme → Bool × List Lexeme
  | .plain '^' :: ls => (true, ls)
  | ls => (false, ls)

theorem length_takeHat_le (ls : List Lexeme) : (takeHat ls).2.length ≤ ls.length := by
  unfold takeHat
  split <;> simp

/-- The number of hyphens at the start. -/
def hyphens : List Lexeme → Nat
  | .plain '-' :: ls => hyphens ls + 1
  | _ => 0

/-- The members at the start of a class, and the lexemes after them: hyphens, or else one closing
bracket. -/
def firstMembers (ls : List Lexeme) : List CharClass × List Lexeme :=
  match hyphens ls, ls with
  | 0, .plain ']' :: rest => ([.single ']'], rest)
  | n, ls => (List.replicate n (.single '-'), ls.drop n)

theorem length_firstMembers_le (ls : List Lexeme) :
    (firstMembers ls).2.length ≤ ls.length := by
  unfold firstMembers
  split <;> simp

/-- The class that starts after a bracket, and the lexemes after its head. -/
def openSet (ls : List Lexeme) : OpenSet × List Lexeme :=
  let (negated, ls) := takeHat ls
  let (members, ls) := firstMembers ls
  (⟨negated, none, members.map fun c => ⟨c, 0⟩⟩, ls)

theorem length_openSet_le (ls : List Lexeme) : (openSet ls).2.length ≤ ls.length :=
  Nat.le_trans (length_firstMembers_le (takeHat ls).2) (length_takeHat_le ls)

/-- The character as written. -/
def Lexeme.plain? : Lexeme → Option Char
  | .plain c => some c
  | _ => none

/-- A class with a name of its own, after its bracket, and the lexemes after it. The negation of
such a class comes after its closure under case. -/
def namedSet? (flags : Flags) (ls : List Lexeme) : Option (CharClass × List Lexeme) :=
  match ls with
  | .plain ':' :: ls =>
      let (negated, ls) := takeHat ls
      let name := (ls.map Lexeme.plain?).takeWhile fun c => c.any (· ≠ ':')
      match ls.drop name.length with
      | .plain ':' :: .plain ']' :: rest =>
          (CharClass.named? (String.ofList name.reduceOption)).map fun c =>
            (if negated then .negated (flags.closeCase c) else c, rest)
      | _ => none
  | _ => none

theorem length_namedSet?_lt {flags : Flags} {ls rest : List Lexeme} {c : CharClass}
    (h : namedSet? flags ls = some (c, rest)) : rest.length < ls.length := by
  unfold namedSet? at h
  split at h
  · rename_i ls
    have hle := length_takeHat_le ls
    simp only at h
    split at h
    · rename_i hdrop
      obtain ⟨_, _, hc⟩ := Option.map_eq_some_iff.mp h
      simp only [Prod.mk.injEq] at hc
      have := congrArg List.length hdrop
      simp only [List.length_drop, List.length_cons, hc.2] at this
      simp only [List.length_cons]
      omega
    · contradiction
  · contradiction

/-- The character at an end of a range. -/
def Lexeme.char? : Lexeme → Option Char
  | .plain c | .literal c => some c
  | _ => none

/-- A single member of a class. -/
def Lexeme.member : Lexeme → Except PatternError CharClass
  | .plain c | .literal c => .ok (.single c)
  | .set c => .ok c
  | .place _ => .error .badClass

/-- The range between two ends. -/
def rangeOf (low high : Lexeme) : Except PatternError CharClass :=
  match low.char?, high.char? with
  | some a, some b => if a ≤ b then .ok (.range a b) else .error .badClass
  | _, _ => .error .badClass

/-- The member of a class that starts with `l`, and the lexemes after it. A hyphen between two
ends makes a range, unless another hyphen or the end of the class follows. -/
def setMember (l : Lexeme) (ls : List Lexeme) : Except PatternError (CharClass × List Lexeme) :=
  match ls with
  | .plain '-' :: rest => match rest with
    | [] => .error .unclosedClass
    | .plain ']' :: _ => (·, ls) <$> l.member
    | .plain '-' :: _ => (·, ls) <$> l.member
    | high :: rest => (·, rest) <$> rangeOf l high
  | ls => (·, ls) <$> l.member

theorem length_le_of_map_pair {α β ε : Type} {x : Except ε α} {ls rest : List β} {a : α}
    (h : ((·, ls) <$> x) = .ok (a, rest)) : rest.length ≤ ls.length := by
  cases x with
  | error e => simp [Functor.map, Except.map] at h
  | ok found =>
      simp only [Functor.map, Except.map, Except.ok.injEq, Prod.mk.injEq] at h
      exact h.2 ▸ Nat.le_refl _

theorem length_setMember_le {l : Lexeme} {ls rest : List Lexeme} {c : CharClass}
    (h : setMember l ls = .ok (c, rest)) : rest.length ≤ ls.length := by
  unfold setMember at h
  split at h
  · split at h
    · contradiction
    · exact length_le_of_map_pair h
    · exact length_le_of_map_pair h
    · have := length_le_of_map_pair h
      simp only [List.length_cons]
      omega
  · exact length_le_of_map_pair h

/-- The class whose innermost open part is `s`, inside `outer`, and the lexemes after it. -/
def readSet (flags : Flags) (s : OpenSet) (outer : List OpenSet) :
    List Lexeme → Except PatternError (Leveled CharClass × List Lexeme)
  | [] => .error .unclosedClass
  | .plain ']' :: ls => match outer with
    | [] => .ok (s.close flags, ls)
    | o :: outer => readSet flags (o.push (s.close flags)) outer ls
  | .plain '[' :: ls => match _h : namedSet? flags ls with
    | some (c, rest) => readSet flags (s.push ⟨c, 0⟩) outer rest
    | none => readSet flags (openSet ls).1 (s :: outer) (openSet ls).2
  | .plain '&' :: .plain '&' :: ls => readSet flags (s.split flags .inter) outer ls
  | .plain '-' :: .plain '-' :: ls => readSet flags (s.split flags .diff) outer ls
  | .plain '~' :: .plain '~' :: ls => readSet flags (s.split flags .either) outer ls
  | l :: ls => match _h : setMember l ls with
    | .ok (c, rest) => readSet flags (s.push ⟨c, 0⟩) outer rest
    | .error e => .error e
termination_by ls => ls.length
decreasing_by
  · simp
  · have := length_namedSet?_lt _h
    simp only [List.length_cons]; omega
  · have := length_openSet_le ls
    simp only [List.length_cons]; omega
  · simp only [List.length_cons]; omega
  · simp only [List.length_cons]; omega
  · simp only [List.length_cons]; omega
  · have := length_setMember_le _h
    simp only [List.length_cons]; omega

theorem length_readSet_le {flags : Flags} {s : OpenSet} {outer : List OpenSet}
    {ls rest : List Lexeme} {c : Leveled CharClass}
    (h : readSet flags s outer ls = .ok (c, rest)) : rest.length ≤ ls.length := by
  fun_induction readSet flags s outer ls <;> simp_all
  all_goals grind [→ length_namedSet?_lt, length_openSet_le, → length_setMember_le]

end Lexicolor.Pattern
