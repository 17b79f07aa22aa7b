import Lexicolor.Text.Search
import Lexicolor.Text.Utf8

/-!
# Byte offsets

Places in a text as the number of bytes before them. A text can only be cut
between two characters, or at an end.
-/

namespace Lexicolor.Text

variable {needle cs : List Char} {offset : Nat}

/-- The text from a byte offset on; none where the offset is outside the text or inside a
character. -/
def fromByte? : (offset : Nat) → List Char → Option (List Char)
  | 0, cs => some cs
  | _ + 1, [] => none
  | offset + 1, c :: cs =>
      if c.utf8Size ≤ offset + 1 then fromByte? (offset + 1 - c.utf8Size) cs else none

/-- The byte offset of the first occurrence of `needle`. -/
def offsetOf? (needle cs : List Char) : Option Nat :=
  (cut? needle cs).map fun (before, _) => byteLength before

@[simp] theorem byteLength_nil : byteLength [] = 0 := rfl

@[simp] theorem byteLength_cons (c : Char) (cs : List Char) :
    byteLength (c :: cs) = c.utf8Size + byteLength cs := rfl

theorem byteLength_pos (h : cs ≠ []) : 0 < byteLength cs :=
  show byteLength [] < byteLength ([] ++ cs) from byteLength_lt h

theorem fromByte?_append (before after : List Char) :
    fromByte? (byteLength before) (before ++ after) = some after := by
  induction before with
  | nil => cases after <;> rfl
  | cons c before ih =>
      obtain ⟨n, hn⟩ : ∃ n, c.utf8Size + byteLength before = n + 1 :=
        ⟨_, (Nat.succ_pred_eq_of_pos (Nat.add_pos_left c.utf8Size_pos _)).symm⟩
      rw [byteLength_cons, hn, List.cons_append, fromByte?, ← hn, if_pos (Nat.le_add_right ..),
        Nat.add_sub_cancel_left, ih]

/-- The text can be cut at the offset. -/
def CutsAt (cs : List Char) (offset : Nat) : Prop :=
  ∃ before after, cs = before ++ after ∧ offset = byteLength before

theorem offsetOf?_eq_some (h : offsetOf? needle cs = some offset) :
    ∃ before after, cs = before ++ needle ++ after ∧ offset = byteLength before := by
  obtain ⟨⟨before, after⟩, hcut, rfl⟩ := Option.map_eq_some_iff.mp h
  exact ⟨before, after, eq_append_of_cut? hcut, rfl⟩

/-- The text can be cut before what a search finds, and behind it. -/
theorem cutsAt_of_offsetOf? (before : List Char) (h : offsetOf? needle cs = some offset) :
    CutsAt (before ++ cs) (byteLength before + offset) ∧
      CutsAt (before ++ cs) (byteLength before + offset + byteLength needle) := by
  obtain ⟨between, after, rfl, rfl⟩ := offsetOf?_eq_some h
  refine ⟨⟨before ++ between, needle ++ after, ?_, ?_⟩, before ++ between ++ needle, after, ?_, ?_⟩
  · simp only [List.append_assoc]
  · rw [byteLength_append]
  · simp only [List.append_assoc]
  · rw [byteLength_append, byteLength_append]

end Lexicolor.Text
