import Mathlib
import Lexicolor.Proofs.Token.Excluded

/-!
# Targets of include directives

What follows the head of an include directive is read once from left to right:
its target is what this reading finds in angle brackets. So only the point where
the reading stands matters for what follows.
-/

namespace Lexicolor.Token

open Text

variable {cs cs' line rest front after target : List Char} {c : Char}

/-! ## Reading for a target -/

/-- Where a reading for a target in angle brackets stands. -/
inductive Bracket where
  | outside
  | inside
  | behind
  deriving DecidableEq

namespace Bracket

def step : Bracket → Char → Bracket
  | .outside, '<' => .inside
  | .inside, '>' => .behind
  | bracket, _ => bracket

/-- Where the reading stands behind a text. -/
def run (bracket : Bracket) (cs : List Char) : Bracket := cs.foldl step bracket

/-- The characters in brackets, and the brackets themselves. -/
def marks : Bracket → List Char → Mask
  | _, [] => []
  | bracket, c :: cs =>
      decide (bracket = .inside ∨ bracket.step c = .inside) :: marks (bracket.step c) cs

variable {bracket : Bracket}

@[simp] theorem run_append (bracket : Bracket) (cs cs' : List Char) :
    bracket.run (cs ++ cs') = (bracket.run cs).run cs' := List.foldl_append

@[simp] theorem run_cons (bracket : Bracket) (c : Char) (cs : List Char) :
    bracket.run (c :: cs) = (bracket.step c).run cs := rfl

@[simp] theorem length_marks (bracket : Bracket) (cs : List Char) :
    (bracket.marks cs).length = cs.length := by
  induction cs generalizing bracket with
  | nil => rfl
  | cons c cs ih => rw [marks, List.length_cons, ih, List.length_cons]

theorem marks_append (bracket : Bracket) (cs cs' : List Char) :
    bracket.marks (cs ++ cs') = bracket.marks cs ++ (bracket.run cs).marks cs' := by
  induction cs generalizing bracket with
  | nil => rfl
  | cons c cs ih => rw [List.cons_append, marks, ih, marks, run_cons, List.cons_append]

theorem step_outside (h : c ≠ '<') : outside.step c = outside := by
  rw [step]
  · exact fun _ heq => h heq
  · exact fun heq => by cases heq

theorem step_inside (h : c ≠ '>') : inside.step c = inside := by
  rw [step]
  · exact fun heq => by cases heq
  · exact fun _ heq => h heq

/-- A reading that stays where it is marks all characters or none. -/
theorem run_of_steps (h : ∀ c ∈ cs, bracket.step c = bracket) :
    bracket.run cs = bracket ∧
      bracket.marks cs = List.replicate cs.length (decide (bracket = .inside)) := by
  induction cs with
  | nil => exact ⟨rfl, rfl⟩
  | cons c cs ih =>
      obtain ⟨hc, hcs⟩ := List.forall_mem_cons.mp h
      obtain ⟨hrun, hmarks⟩ := ih hcs
      refine ⟨by rw [run_cons, hc, hrun], ?_⟩
      simp only [marks, hc, hmarks, or_self, List.length_cons, List.replicate_succ]

theorem run_outside (h : '<' ∉ cs) :
    outside.run cs = outside ∧ outside.marks cs = List.replicate cs.length false :=
  run_of_steps fun _ hc => step_outside (ne_of_mem_of_not_mem hc h)

theorem run_inside (h : '>' ∉ cs) :
    inside.run cs = inside ∧ inside.marks cs = List.replicate cs.length true :=
  run_of_steps fun _ hc => step_inside (ne_of_mem_of_not_mem hc h)

theorem run_behind (cs : List Char) :
    behind.run cs = behind ∧ behind.marks cs = List.replicate cs.length false :=
  run_of_steps fun _ _ => rfl

/-- The first opening bracket and the first closing one behind it belong together. -/
theorem run_target (hfront : '<' ∉ front) (htarget : '>' ∉ target) (after : List Char) :
    outside.run (front ++ '<' :: (target ++ '>' :: after)) = behind ∧
      outside.marks (front ++ '<' :: (target ++ '>' :: after)) =
        List.replicate front.length false ++ List.replicate (target.length + 2) true ++
          List.replicate after.length false := by
  obtain ⟨hrun, hmarks⟩ := run_outside hfront
  obtain ⟨hrun', hmarks'⟩ := run_inside htarget
  have hopen : outside.step '<' = inside := rfl
  have hclose : inside.step '>' = behind := rfl
  constructor
  · rw [run_append, hrun, run_cons, hopen, run_append, hrun', run_cons, hclose, (run_behind _).1]
  · have hlength : List.replicate (target.length + 2) true =
        true :: (List.replicate target.length true ++ [true]) := by
      rw [List.replicate_succ, List.replicate_succ']
    rw [marks_append, hrun, hmarks, marks, hopen, marks_append, hrun', hmarks', marks, hclose,
      (run_behind after).2, hlength]
    simp

theorem run_inside_cases (cs : List Char) : inside.run cs = inside ∨ inside.run cs = behind := by
  by_cases hclose : '>' ∈ cs
  · obtain ⟨target, after, rfl, htarget⟩ := List.eq_append_cons_of_mem hclose
    have hfront : '<' ∉ ([] : List Char) := List.not_mem_nil
    exact .inr (run_target hfront htarget after).1
  · exact .inl (run_inside hclose).1

end Bracket

/-- Marks the target if the reading of the whole text ends behind it. -/
def targetMask (closed : Bool) (bracket : Bracket) (cs : List Char) : Mask :=
  if closed then bracket.marks cs else List.replicate cs.length false

@[simp] theorem length_targetMask (closed : Bool) (bracket : Bracket) (cs : List Char) :
    (targetMask closed bracket cs).length = cs.length := by
  cases closed <;> simp [targetMask]

theorem targetMask_append (closed : Bool) (bracket : Bracket) (cs cs' : List Char) :
    targetMask closed bracket (cs ++ cs') =
      targetMask closed bracket cs ++ targetMask closed (bracket.run cs) cs' := by
  cases closed <;> simp [targetMask, Bracket.marks_append]

/-! ## The head of a directive -/

/-- The word of an include directive. -/
def includeWord : List Char := ['i', 'n', 'c', 'l', 'u', 'd', 'e']

theorem afterInclude?_eq_some_iff : afterInclude? line = some rest ↔
    ∃ blanks blanks', (∀ b ∈ blanks, isBlank b) ∧ (∀ b ∈ blanks', isBlank b) ∧
      line = blanks ++ '#' :: (blanks' ++ includeWord) ++ rest := by
  have hhash : ¬isBlank '#' := by decide
  have hword : ¬isBlank 'i' := by decide
  simp only [afterInclude?, Option.bind_eq_bind, Option.bind_eq_some_iff, after?_eq_some_iff]
  constructor
  · rintro ⟨cs, hcs, hrest⟩
    obtain ⟨blanks, hblanks, rfl⟩ := (dropBlanks_eq_cons_iff hhash).mp hcs
    obtain ⟨blanks', hblanks', rfl⟩ := (dropBlanks_eq_cons_iff hword).mp hrest
    exact ⟨blanks, blanks', hblanks, hblanks', by simp [includeWord]⟩
  · rintro ⟨blanks, blanks', hblanks, hblanks', rfl⟩
    refine ⟨blanks' ++ includeWord ++ rest, (dropBlanks_eq_cons_iff hhash).mpr ?_,
      (dropBlanks_eq_cons_iff hword).mpr ?_⟩
    · exact ⟨blanks, hblanks, by simp⟩
    · exact ⟨blanks', hblanks', by simp [includeWord]⟩

/-- A quote does not belong to the head of a directive. -/
theorem afterInclude?_append (line rest : List Char) :
    afterInclude? (line ++ '"' :: rest) = (afterInclude? line).map (· ++ '"' :: rest) := by
  refine Option.ext fun found => ?_
  simp only [Option.map_eq_some_iff, afterInclude?_eq_some_iff]
  constructor
  · rintro ⟨blanks, blanks', hblanks, hblanks', heq⟩
    have hquote : '"' ∉ blanks ++ '#' :: (blanks' ++ includeWord) := by
      have hblank {l : List Char} (hl : ∀ b ∈ l, isBlank b) : '"' ∉ l := fun hmem =>
        absurd (hl '"' hmem) (by decide)
      simp [hblank hblanks, hblank hblanks', includeWord]
    rcases List.append_eq_append_iff.mp heq with ⟨more, hhead, hmore⟩ | ⟨more, hline, hfound⟩
    · cases more with
      | nil =>
          rw [List.nil_append] at hmore
          exact ⟨[], ⟨blanks, blanks', hblanks, hblanks', by simpa using hhead.symm⟩, hmore⟩
      | cons c more =>
          cases hmore
          rw [hhead] at hquote
          simp at hquote
    · exact ⟨more, ⟨blanks, blanks', hblanks, hblanks', hline⟩, hfound.symm⟩
  · rintro ⟨found, ⟨blanks, blanks', hblanks, hblanks', rfl⟩, rfl⟩
    exact ⟨blanks, blanks', hblanks, hblanks', by simp⟩

/-! ## The target of a line -/

theorem includeMask_of_eq_none (h : afterInclude? line = none) :
    includeMask line = List.replicate line.length false := by
  rw [includeMask, includeTarget?, h]
  rfl

theorem replicate_targetMask (h : rest.length ≤ line.length) :
    List.replicate (line.length - rest.length) false ++ targetMask false .outside rest =
      List.replicate line.length false := by
  rw [targetMask, if_neg Bool.false_ne_true, List.replicate_append_replicate,
    Nat.sub_add_cancel h]

/-- The target is what the reading behind the head finds. -/
theorem includeMask_of_eq_some (h : afterInclude? line = some rest) :
    includeMask line = List.replicate (line.length - rest.length) false ++
      targetMask (decide (Bracket.outside.run rest = .behind)) .outside rest := by
  have hle := (suffix_of_afterInclude? h).length_le
  rw [includeMask, includeTarget?, h, Option.bind_eq_bind, Option.bind_some]
  -- the marks depend on whether a bracket opens and on whether it closes
  cases hopen : cut? ['<'] rest with
  | none =>
      obtain ⟨hrun, -⟩ := Bracket.run_outside (notMem_of_cut?_eq_none hopen)
      rw [hrun]
      exact (replicate_targetMask hle).symm
  | some found =>
      obtain ⟨front, opened⟩ := found
      obtain ⟨rfl, hfront⟩ := eq_append_of_cut?_singleton hopen
      obtain ⟨hrun, -⟩ := Bracket.run_outside hfront
      have hopened : Bracket.outside.run (front ++ '<' :: opened) = Bracket.inside.run opened := by
        rw [Bracket.run_append, hrun]
        rfl
      rw [hopened]
      simp only [Option.bind_eq_bind, Option.bind_some]
      cases hclose : cut? ['>'] opened with
      | none =>
          obtain ⟨hrun, -⟩ := Bracket.run_inside (notMem_of_cut?_eq_none hclose)
          rw [hrun]
          exact (replicate_targetMask hle).symm
      | some found =>
          obtain ⟨target, after⟩ := found
          obtain ⟨rfl, htarget⟩ := eq_append_of_cut?_singleton hclose
          obtain ⟨hrun, hmarks⟩ := Bracket.run_target hfront htarget after
          have hbehind : Bracket.inside.run (target ++ '>' :: after) = .behind := by
            rw [← hopened, hrun]
          rw [hbehind, targetMask, if_pos (decide_eq_true rfl), hmarks]
          simp only [Option.bind_some, Option.pure_def, List.length_append, List.length_cons,
            ← List.append_assoc, List.replicate_append_replicate] at hle ⊢
          congr 3 <;> omega

end Lexicolor.Token
