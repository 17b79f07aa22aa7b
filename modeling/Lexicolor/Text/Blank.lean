/-!
# Blank characters

The characters with the Unicode property White_Space, and trimming them from
both ends of a text.
-/

namespace Lexicolor.Text

/-- The code points with the property White_Space. -/
def isBlank (c : Char) : Bool :=
  let n := c.toNat
  (9 ≤ n && n ≤ 13) || n == 0x20 || n == 0x85 || n == 0xa0 || n == 0x1680 ||
    (0x2000 ≤ n && n ≤ 0x200a) || n == 0x2028 || n == 0x2029 || n == 0x202f ||
    n == 0x205f || n == 0x3000

/-- The text without the blanks at its start. -/
def dropBlanks (cs : List Char) : List Char := cs.dropWhile isBlank

/-- The text without the blanks at its end. -/
def dropBlanksRight (cs : List Char) : List Char := (dropBlanks cs.reverse).reverse

def trim (cs : List Char) : List Char := dropBlanksRight (dropBlanks cs)

/-- Nothing but blanks. -/
def allBlank (cs : List Char) : Bool := cs.all isBlank

theorem length_dropBlanks_le (cs : List Char) : (dropBlanks cs).length ≤ cs.length :=
  (List.dropWhile_sublist _).length_le

end Lexicolor.Text
