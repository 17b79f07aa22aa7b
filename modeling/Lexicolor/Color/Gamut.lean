import Lexicolor.Color.Hex

/-!
# From Display P3 to sRGB

Both spaces have the same white point and transfer curve. A colour is decoded,
mapped between the primaries, clipped to the gamut and encoded again.
-/

namespace Lexicolor.Color

/-- The transfer curve, from encoded to linear. -/
def decode (c : Float) : Float :=
  if c <= 0.04045 then c / 12.92 else ((c + 0.055) / 1.055).pow 2.4

/-- The transfer curve, from linear to encoded. -/
def encode (c : Float) : Float :=
  if c <= 0.0031308 then c * 12.92 else 1.055 * c.pow (1.0 / 2.4) - 0.055

def clip (c : Float) : Float := if c < 0.0 then 0.0 else if c > 1.0 then 1.0 else c

/-- The channel with a given share of each linear primary. -/
def mix (fromRed fromGreen fromBlue red green blue : Float) : UInt8 :=
  let linear := fromRed * red + fromGreen * green + fromBlue * blue
  (encode (clip linear) * 255.0).round.toUInt8

/-- The sRGB colour nearest to a Display P3 colour. The opacity stays. -/
def toSrgb (color : Color) : Color :=
  let linear (channel : UInt8) : Float := decode (channel.toNat.toFloat / 255.0)
  let red := linear color.red
  let green := linear color.green
  let blue := linear color.blue
  { red := mix 1.2249402 (-0.2249402) 0.0 red green blue
    green := mix (-0.0420569) 1.0420569 0.0 red green blue
    blue := mix (-0.0196376) (-0.0786361) 1.0982737 red green blue
    alpha := color.alpha }

/-- The text of the sRGB colour for the text of a Display P3 colour. -/
def srgbText (text : String) : Except Problem String := do
  let color ← read text
  return color.toSrgb.toHex

end Lexicolor.Color
