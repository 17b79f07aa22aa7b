import Lexicolor.Problem
import Lexicolor.Text.Hex

/-!
# Colours

Colours of eight bits per channel, written as hexadecimal digits after a hash,
with or without an opacity.
-/

namespace Lexicolor

structure Color where
  red : UInt8
  green : UInt8
  blue : UInt8
  alpha : Option UInt8
  deriving DecidableEq

namespace Color

/-- The channel that two digits spell. -/
def channel? (high low : Char) : Option UInt8 := (Text.hexNumber? [high, low]).map UInt8.ofNat

/-- The colour that six or eight digits spell. -/
def ofDigits? : List Char → Option Color
  | [r₁, r₂, g₁, g₂, b₁, b₂] => do
      return ⟨← channel? r₁ r₂, ← channel? g₁ g₂, ← channel? b₁ b₂, none⟩
  | [r₁, r₂, g₁, g₂, b₁, b₂, a₁, a₂] => do
      return ⟨← channel? r₁ r₂, ← channel? g₁ g₂, ← channel? b₁ b₂, ← channel? a₁ a₂⟩
  | _ => none

/-- Reads a colour; hashes before the digits do not count. -/
def read (text : String) : Except Problem Color :=
  match ofDigits? (text.toList.dropWhile (· = '#')) with
  | some color => .ok color
  | none => .error (.invalidColor text)

/-- The text of a colour, in small letters. -/
def toHex (color : Color) : String :=
  let channels := [color.red, color.green, color.blue] ++ color.alpha.toList
  String.ofList ('#' :: channels.flatMap fun channel => Text.hexPair channel.toNat)

end Color

end Lexicolor
