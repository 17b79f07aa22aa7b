import Lexicolor.Text.Offset

/-!
# The comments of a line

Comments are found by searches for their markers from one byte offset to the
next. A block comment may go on over several lines.
-/

namespace Lexicolor.Token

open Text

/-- The bytes of a line from `start` on, up to `stop`. -/
structure Region where
  start : Nat
  stop : Nat
  deriving DecidableEq

/-- The byte at the offset is one of the region. -/
def Region.holds (region : Region) (offset : Nat) : Bool :=
  region.start ≤ offset && offset < region.stop

/-- What a search for a comment finds. -/
inductive CommentSearch where
  /-- A comment that ends on the line. -/
  | closed (comment : Region)
  /-- A comment up to the end of the line, which may be a block comment that goes on. -/
  | cut (comment : Region) (inBlock : Bool)
  | nothing
  deriving DecidableEq

/-- The block comment that is opened at an offset. -/
def blockComment? (line : List Char) (start : Nat) : Option CommentSearch := do
  let inside ← fromByte? (start + 2) line
  match offsetOf? ['*', '/'] inside with
  | some offset => return .closed ⟨start, start + 2 + offset + 2⟩
  | none => return .cut ⟨start, byteLength line⟩ true

/-- The first comment from an offset on. The flag tells whether a block comment is open there. There
is no answer where the line would be cut outside its characters or inside one. -/
def searchComment? (line : List Char) (start : Nat) (inBlock : Bool) : Option CommentSearch := do
  let rest ← fromByte? start line
  if inBlock then
    match offsetOf? ['*', '/'] rest with
    | some offset => return .closed ⟨start, start + offset + 2⟩
    | none => return .cut ⟨start, byteLength line⟩ true
  else
    match offsetOf? ['/', '*'] rest, offsetOf? ['/', '/'] rest with
    | some block, some remark =>
        if block < remark then blockComment? line (start + block)
        else return .cut ⟨start + remark, byteLength line⟩ false
    | some block, none => blockComment? line (start + block)
    | none, some remark => return .cut ⟨start + remark, byteLength line⟩ false
    | none, none => return .nothing

/-- The comments from an offset on, and whether a block comment is open behind the line. There is
no answer where a search has none, nor where it does not get ahead. -/
def commentsFrom? (line : List Char) (start : Nat) (inBlock : Bool) :
    Option (List Region × Bool) :=
  if start < byteLength line then do
    match ← searchComment? line start inBlock with
    | .closed comment =>
        if start < comment.stop then
          let (comments, inBlock) ← commentsFrom? line comment.stop false
          return (comment :: comments, inBlock)
        else none
    | .cut comment inBlock => return ([comment], inBlock)
    | .nothing => return ([], false)
  else return ([], inBlock)
termination_by byteLength line - start

/-! ## Every search succeeds -/

variable {line : List Char} {start : Nat}

/-- The search gets ahead, and the line can be cut where it goes on. -/
def CommentSearch.GoesOn (line : List Char) (start : Nat) : CommentSearch → Prop
  | .closed comment => start + 2 ≤ comment.stop ∧ CutsAt line comment.stop
  | _ => True

theorem exists_blockComment? (h : CutsAt line (start + 2)) :
    ∃ found, blockComment? line start = some found ∧ found.GoesOn line start := by
  obtain ⟨before, inside, rfl, hbefore⟩ := h
  rw [blockComment?, hbefore, fromByte?_append, Option.bind_eq_bind, Option.bind_some]
  cases hclose : offsetOf? ['*', '/'] inside with
  | none => exact ⟨_, rfl, trivial⟩
  | some offset =>
      refine ⟨_, rfl, ?_, (cutsAt_of_offsetOf? before hclose).2⟩
      show start + 2 ≤ byteLength before + offset + 2
      omega

theorem exists_searchComment? (inBlock : Bool) (h : CutsAt line start) :
    ∃ found, searchComment? line start inBlock = some found ∧ found.GoesOn line start := by
  obtain ⟨before, rest, rfl, rfl⟩ := h
  have hblock {offset : Nat} (hopen : offsetOf? ['/', '*'] rest = some offset) :
      ∃ found, blockComment? (before ++ rest) (byteLength before + offset) = some found ∧
        found.GoesOn (before ++ rest) (byteLength before) := by
    obtain ⟨found, hfound, hgoes⟩ := exists_blockComment? (cutsAt_of_offsetOf? before hopen).2
    refine ⟨found, hfound, ?_⟩
    cases found with
    | closed comment =>
        have hle : byteLength before + offset + 2 ≤ comment.stop := hgoes.1
        exact ⟨by omega, hgoes.2⟩
    | _ => trivial
  rw [searchComment?, fromByte?_append, Option.bind_eq_bind, Option.bind_some]
  cases inBlock with
  | true =>
      cases hclose : offsetOf? ['*', '/'] rest with
      | none => exact ⟨_, rfl, trivial⟩
      | some offset =>
          refine ⟨_, rfl, ?_, (cutsAt_of_offsetOf? before hclose).2⟩
          show byteLength before + 2 ≤ byteLength before + offset + 2
          omega
  | false =>
      cases hopen : offsetOf? ['/', '*'] rest with
      | none => cases offsetOf? ['/', '/'] rest <;> exact ⟨_, rfl, trivial⟩
      | some block =>
          cases offsetOf? ['/', '/'] rest with
          | none => exact hblock hopen
          | some remark =>
              by_cases hlt : block < remark
              · simpa [hlt] using hblock hopen
              · exact ⟨_, if_neg hlt, trivial⟩

theorem isSome_commentsFrom? (inBlock : Bool) (h : CutsAt line start) :
    (commentsFrom? line start inBlock).isSome := by
  induction hn : byteLength line - start using Nat.strongRecOn generalizing start inBlock with
  | _ n ih =>
      rw [commentsFrom?]
      split
      next hlt =>
        obtain ⟨found, hfound, hgoes⟩ := exists_searchComment? inBlock h
        rw [hfound, Option.bind_eq_bind, Option.bind_some]
        cases found with
        | closed comment =>
            have hadvance : start < comment.stop := Nat.lt_of_succ_lt hgoes.1
            obtain ⟨_, hrest⟩ :=
              Option.isSome_iff_exists.mp (ih _ (by omega) false hgoes.2 rfl)
            simp [hadvance, hrest]
        | cut comment inBlock => rfl
        | nothing => rfl
      next => rfl

theorem cutsAt_zero (line : List Char) : CutsAt line 0 := ⟨[], line, rfl, rfl⟩

/-- The comments of a line, and whether a block comment is open behind it; the flag tells whether
one is open before it. -/
def comments (inBlock : Bool) (line : List Char) : List Region × Bool :=
  (commentsFrom? line 0 inBlock).get (isSome_commentsFrom? inBlock (cutsAt_zero line))

end Lexicolor.Token
