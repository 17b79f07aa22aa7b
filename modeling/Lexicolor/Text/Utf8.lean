/-!
# UTF-8

The number of bytes of a text, and the decoding of bytes that need not be
well-formed: each maximal part that starts a character but does not complete
it, and each byte that starts none, counts as one fault.
-/

namespace Lexicolor.Text

/-- The number of bytes of the text in UTF-8. -/
def byteLength (cs : List Char) : Nat := cs.foldr (fun c n => c.utf8Size + n) 0

theorem byteLength_append (cs ds : List Char) :
    byteLength (cs ++ ds) = byteLength cs + byteLength ds := by
  induction cs with
  | nil => simp [byteLength]
  | cons c cs ih =>
      simp only [byteLength, List.cons_append, List.foldr_cons] at ih ⊢
      omega

/-- A text is longer than one that it properly starts with. -/
theorem byteLength_lt {cs ds : List Char} (hne : ds ≠ []) :
    byteLength cs < byteLength (cs ++ ds) := by
  obtain ⟨d, ds, rfl⟩ := List.exists_cons_of_ne_nil hne
  have hpos := d.utf8Size_pos
  rw [byteLength_append]
  simp only [byteLength, List.foldr_cons]
  omega

def isContinuation (b : UInt8) : Bool := 0x80 ≤ b && b ≤ 0xbf

/-- The second bytes that may follow `first` in a character of three or four bytes. -/
def isSecond (first b : UInt8) : Bool :=
  if first == 0xe0 then 0xa0 ≤ b && b ≤ 0xbf
  else if first == 0xed then 0x80 ≤ b && b ≤ 0x9f
  else if first == 0xf0 then 0x90 ≤ b && b ≤ 0xbf
  else if first == 0xf4 then 0x80 ≤ b && b ≤ 0x8f
  else isContinuation b

/-- The payload bits of a continuation byte appended to `n`. -/
def pushBits (n : Nat) (b : UInt8) : Nat := n * 64 + (b.toNat - 0x80)

/-- The first character, or `none` for a fault, and the bytes after it. -/
def decodeFirst (first : UInt8) (bytes : List UInt8) : Option Char × List UInt8 :=
  if first < 0x80 then (some (Char.ofNat first.toNat), bytes)
  else if 0xc2 ≤ first && first ≤ 0xdf then
    match bytes with
    | b :: rest =>
        if isContinuation b then
          (some (Char.ofNat (pushBits (first.toNat - 0xc0) b)), rest)
        else (none, bytes)
    | [] => (none, [])
  else if 0xe0 ≤ first && first ≤ 0xef then
    match bytes with
    | b :: rest =>
        if isSecond first b then
          match rest with
          | c :: rest' =>
              if isContinuation c then
                (some (Char.ofNat (pushBits (pushBits (first.toNat - 0xe0) b) c)), rest')
              else (none, rest)
          | [] => (none, [])
        else (none, bytes)
    | [] => (none, [])
  else if 0xf0 ≤ first && first ≤ 0xf4 then
    match bytes with
    | b :: rest =>
        if isSecond first b then
          match rest with
          | c :: rest' =>
              if isContinuation c then
                match rest' with
                | d :: rest'' =>
                    if isContinuation d then
                      let n := pushBits (pushBits (pushBits (first.toNat - 0xf0) b) c) d
                      (some (Char.ofNat n), rest'')
                    else (none, rest')
                | [] => (none, [])
              else (none, rest)
          | [] => (none, [])
        else (none, bytes)
    | [] => (none, [])
  else (none, bytes)

theorem length_decodeFirst_le (first : UInt8) (bytes : List UInt8) :
    (decodeFirst first bytes).2.length ≤ bytes.length := by
  unfold decodeFirst
  repeat' split
  all_goals simp only [List.length_cons, List.length_nil]; omega

/-- The characters and faults that the bytes spell. -/
def decode : List UInt8 → List (Option Char)
  | [] => []
  | first :: bytes =>
      have := length_decodeFirst_le first bytes
      (decodeFirst first bytes).1 :: decode (decodeFirst first bytes).2
termination_by bytes => bytes.length
decreasing_by simp only [List.length_cons]; omega

/-- The text that the bytes spell, with U+FFFD for every fault. -/
def decodeLossy (bytes : ByteArray) : String :=
  String.ofList ((decode bytes.toList).map (·.getD '\ufffd'))

end Lexicolor.Text
