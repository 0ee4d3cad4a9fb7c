/-!
# Blank characters

The characters with the Unicode property `White_Space`, and trimming by them.
-/

namespace Lindenmayer.Text

/-- The character has the property `White_Space`: 25 code points. -/
def isBlank (c : Char) : Bool :=
  let n := c.toNat
  (9 ≤ n && n ≤ 13) || n == 0x20 || n == 0x85 || n == 0xA0 || n == 0x1680 ||
    (0x2000 ≤ n && n ≤ 0x200A) || n == 0x2028 || n == 0x2029 || n == 0x202F ||
    n == 0x205F || n == 0x3000

/-- The list without the blanks it starts with. -/
def dropBlanks (cs : List Char) : List Char := cs.dropWhile isBlank

/-- The list without the blanks at either end. -/
def trimChars (cs : List Char) : List Char :=
  (dropBlanks (dropBlanks cs).reverse).reverse

/-- The text without the blanks at either end. -/
def trim (s : String) : String := String.ofList (trimChars s.toList)

end Lindenmayer.Text
