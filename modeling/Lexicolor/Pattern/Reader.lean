import Lexicolor.Pattern.Bracket
import Lexicolor.Text.Digits
import Lexicolor.Unicode.Letter

/-!
# Reading patterns

Groups, alternatives and repetitions. A group may set flags for what it holds,
and flags set inside a group hold up to its end. The flags are `i`, `m`, `s` and
`U`; there are no classes by property, and a pattern may be of any size.
-/

namespace Lexicolor.Pattern

/-! ## Groups -/

/-- What stands after an opening parenthesis. -/
inductive GroupHead where
  | group (flags : Flags)
  | named (name : List Char)
  /-- Flags for the rest of the group around; nothing is grouped. -/
  | directive (flags : Flags)

/-- Flags up to a colon or the closing parenthesis. The letters before a hyphen are set, those
after it cleared; no letter comes twice. -/
def readFlags (flags : Flags) (seen : List Char) (on : Bool) (bare : Bool) :
    List Lexeme → Except PatternError (GroupHead × List Lexeme)
  | .plain ':' :: ls => if !on && bare then .error .badGroup else .ok (.group flags, ls)
  | .plain ')' :: ls => if bare then .error .badGroup else .ok (.directive flags, ls)
  | .plain '-' :: ls => if on then readFlags flags seen false true ls else .error .badGroup
  | .plain c :: ls =>
      match flags.assign? c on with
      | some flags =>
          if c ∈ seen then .error .badGroup else readFlags flags (c :: seen) on false ls
      | none => .error .badGroup
  | _ => .error .badGroup

theorem length_readFlags_le {flags : Flags} {seen : List Char} {on bare : Bool}
    {ls rest : List Lexeme} {head : GroupHead}
    (h : readFlags flags seen on bare ls = .ok (head, rest)) : rest.length ≤ ls.length := by
  fun_induction readFlags flags seen on bare ls <;> simp_all <;> omega

/-- The characters of a group's name: letters, underscores, and after the first also numbers, dots
and brackets. -/
def isNameChar (first : Bool) (c : Char) : Bool :=
  if first then c == '_' || Unicode.isAlphabetic c
  else c ∈ ['_', '.', '[', ']'] || Unicode.isLetterOrNumber c

def isName : List Char → Bool
  | [] => false
  | c :: cs => isNameChar true c && cs.all (isNameChar false)

/-- The name of a group up to the closing bracket. -/
def readName (name : List Char) : List Lexeme → Except PatternError (GroupHead × List Lexeme)
  | .plain '>' :: ls => if isName name then .ok (.named name, ls) else .error .badGroup
  | .plain c :: ls => readName (name ++ [c]) ls
  | _ => .error .badGroup

theorem length_readName_le {name : List Char} {ls rest : List Lexeme} {head : GroupHead}
    (h : readName name ls = .ok (head, rest)) : rest.length ≤ ls.length := by
  fun_induction readName name ls with
  | case1 => cases h; simp
  | case2 => cases h
  | case3 _ _ _ _ ih => exact Nat.le_succ_of_le (ih h)
  | case4 => cases h

def groupHead (flags : Flags) (ls : List Lexeme) :
    Except PatternError (GroupHead × List Lexeme) :=
  match ls with
  | .plain '?' :: .plain '=' :: _ => .error .lookAround
  | .plain '?' :: .plain '!' :: _ => .error .lookAround
  | .plain '?' :: .plain '<' :: .plain '=' :: _ => .error .lookAround
  | .plain '?' :: .plain '<' :: .plain '!' :: _ => .error .lookAround
  | .plain '?' :: .plain '<' :: ls => readName [] ls
  | .plain '?' :: .plain 'P' :: .plain '<' :: ls => readName [] ls
  | .plain '?' :: ls => readFlags flags [] true true ls
  | ls => .ok (.group flags, ls)

theorem length_groupHead_le {flags : Flags} {ls rest : List Lexeme} {head : GroupHead}
    (h : groupHead flags ls = .ok (head, rest)) : rest.length ≤ ls.length := by
  unfold groupHead at h
  split at h
  case h_5 | h_6 => have := length_readName_le h; simp only [List.length_cons]; omega
  case h_7 => have := length_readFlags_le h; simp only [List.length_cons]; omega
  case h_8 => cases h; exact Nat.le_refl _
  all_goals contradiction

/-! ## Repetitions -/

/-- The text up to a closing brace, and the lexemes after it. -/
def braced (text : List Char) : List Lexeme → Except PatternError (List Char × List Lexeme)
  | .plain '\x7d' :: ls => .ok (text, ls)
  | .plain c :: ls => braced (text ++ [c]) ls
  | _ => .error .badRepetition

theorem length_braced_le {text found : List Char} {ls rest : List Lexeme}
    (h : braced text ls = .ok (found, rest)) : rest.length ≤ ls.length := by
  fun_induction braced text ls with
  | case1 => cases h; simp
  | case2 _ _ _ _ ih => exact Nat.le_succ_of_le (ih h)
  | case3 => cases h

/-- A number of repetitions, which fits 32 bits. Blanks around it do not matter. -/
def count? (text : List Char) : Option Nat :=
  (Text.number? (Text.trim text)).filter (· < 1 <<< 32)

/-- The least number of repetitions and how many more there may be. Where nothing at all follows
the comma, there is no limit. -/
def counts (text : List Char) : Except PatternError (Nat × Option Nat) :=
  match Text.splitOn ',' text with
  | [least] => match count? least with
    | some least => .ok (least, some 0)
    | none => .error .badRepetition
  | [least, []] => match count? least with
    | some least => .ok (least, none)
    | none => .error .badRepetition
  | [least, most] => match count? least, count? most with
    | some least, some most =>
        if least ≤ most then .ok (least, some (most - least)) else .error .badRepetition
    | _, _ => .error .badRepetition
  | _ => .error .badRepetition

/-- The numbers of a repetition that starts with `c`, and the lexemes after them. -/
def readCounts (c : Char) (ls : List Lexeme) :
    Except PatternError ((Nat × Option Nat) × List Lexeme) :=
  if c = '*' then .ok ((0, none), ls)
  else if c = '+' then .ok ((1, none), ls)
  else if c = '?' then .ok ((0, some 1), ls)
  else match braced [] ls with
    | .ok (text, rest) => (·, rest) <$> counts text
    | .error e => .error e

theorem length_readCounts_le {c : Char} {ls rest : List Lexeme} {numbers : Nat × Option Nat}
    (h : readCounts c ls = .ok (numbers, rest)) : rest.length ≤ ls.length := by
  unfold readCounts at h
  repeat' split at h
  all_goals first
    | (cases h; exact Nat.le_refl _)
    | (rename_i hbraced
       exact Nat.le_trans (length_le_of_map_pair h) (length_braced_le hbraced))
    | contradiction

/-- Whether a question mark comes first, and the lexemes after it. -/
def takeLazy : List Lexeme → Bool × List Lexeme
  | .plain '?' :: ls => (true, ls)
  | ls => (false, ls)

theorem length_takeLazy_le (ls : List Lexeme) : (takeLazy ls).2.length ≤ ls.length := by
  unfold takeLazy
  split <;> simp

/-! ## The whole -/

/-- A group that is not closed yet, everything in reverse: the alternatives before, and the parts
of the one in progress. A part that is no pattern cannot be repeated. -/
structure OpenGroup where
  flags : Flags
  before : List (Leveled Pattern)
  parts : List (Leveled (Option Pattern))

namespace OpenGroup

def start (flags : Flags) : OpenGroup := ⟨flags, [], []⟩

def push (g : OpenGroup) (p : Pattern) (levels : Nat) : OpenGroup :=
  { g with parts := ⟨some p, levels⟩ :: g.parts }

/-- The flags hold from here to the end of the group. -/
def direct (g : OpenGroup) (flags : Flags) : OpenGroup :=
  { g with flags := flags, parts := ⟨none, 0⟩ :: g.parts }

def alternative (g : OpenGroup) : Leveled Pattern :=
  ⟨seqAll (g.parts.map Leveled.value).reverse.reduceOption,
    rowLevels (g.parts.map Leveled.levels)⟩

def split (g : OpenGroup) : OpenGroup :=
  { g with before := g.alternative :: g.before, parts := [] }

def close (g : OpenGroup) : Leveled Pattern :=
  let alternatives := g.alternative :: g.before
  ⟨altAll (alternatives.map Leveled.value).reverse,
    rowLevels (alternatives.map Leveled.levels)⟩

/-- Repeats the last part. -/
def repeatLast (g : OpenGroup) (numbers : Nat × Option Nat) (isLazy : Bool) :
    Except PatternError OpenGroup :=
  match g.parts with
  | ⟨some p, levels⟩ :: parts =>
      let greedy := isLazy == g.flags.swapGreed
      .ok { g with parts := ⟨some (repeated p numbers.1 numbers.2 greedy), levels + 1⟩ :: parts }
  | _ => .error .badRepetition

end OpenGroup

/-- Reads on in the group `g`, which stands inside `outer`; `names` are those of the groups so
far. The outermost group stays open at the end. -/
def readGroup (g : OpenGroup) (outer : List OpenGroup) (names : List (List Char)) :
    List Lexeme → Except PatternError OpenGroup
  | [] => if outer.isEmpty then .ok g else .error .unclosedGroup
  | .literal c :: ls => readGroup (g.push (g.flags.char c) 0) outer names ls
  | .set c :: ls => readGroup (g.push (one c) 0) outer names ls
  | .place a :: ls => readGroup (g.push (place a) 0) outer names ls
  | .plain c :: ls =>
      if c = '(' then
        match _h : groupHead g.flags ls with
        | .ok (.group flags, rest) => readGroup (.start flags) (g :: outer) names rest
        | .ok (.directive flags, rest) => readGroup (g.direct flags) outer names rest
        | .ok (.named name, rest) =>
            if name ∈ names then .error .badGroup
            else readGroup (.start g.flags) (g :: outer) (name :: names) rest
        | .error e => .error e
      else if c = ')' then
        match outer with
        | [] => .error .unopenedGroup
        | o :: outer => readGroup (o.push g.close.value (g.close.levels + 1)) outer names ls
      else if c = '|' then readGroup g.split outer names ls
      else if c = '[' then
        match _h : readSet g.flags (openSet ls).1 [] (openSet ls).2 with
        | .ok (c, rest) => readGroup (g.push (one c.value) c.levels) outer names rest
        | .error e => .error e
      else if c = '*' ∨ c = '+' ∨ c = '?' ∨ c = '\x7b' then
        match _h : readCounts c ls with
        | .ok (numbers, rest) =>
            match g.repeatLast numbers (takeLazy rest).1 with
            | .ok g => readGroup g outer names (takeLazy rest).2
            | .error e => .error e
        | .error e => .error e
      else readGroup (g.push (g.flags.plain c) 0) outer names ls
termination_by ls => ls.length
decreasing_by
  all_goals simp only [List.length_cons]
  all_goals first
    | omega
    | exact Nat.lt_succ_of_le (length_groupHead_le _h)
    | exact Nat.lt_succ_of_le (Nat.le_trans (length_takeLazy_le _) (length_readCounts_le _h))
    | exact Nat.lt_succ_of_le (Nat.le_trans (length_readSet_le _h) (length_openSet_le _))

/-- A pattern has no more levels than this. -/
def maxLevels : Nat := 250

/-- The pattern that a text denotes. -/
def read (text : List Char) : Except PatternError Pattern := do
  let g ← readGroup (.start {}) [] [] (← lexemes text)
  if g.close.levels ≤ maxLevels then return g.close.value else throw .tooDeep

end Lexicolor.Pattern
