/-!
# Blank characters

Which characters count as space around a field or a numeral, and cutting them off both ends of a
text. Two classes matter: all blanks of Unicode, and the six plain ones of ASCII.
-/

namespace TileScript.Text

/-- A blank: the spaces, line ends and separators of Unicode, with the four information
separators `U+001C` to `U+001F`. -/
def isBlank (c : Char) : Bool :=
  let n := c.toNat
  (0x09 ≤ n && n ≤ 0x0D) || (0x1C ≤ n && n ≤ 0x20) || n == 0x85 || n == 0xA0 || n == 0x1680 ||
    (0x2000 ≤ n && n ≤ 0x200A) || n == 0x2028 || n == 0x2029 || n == 0x202F || n == 0x205F ||
    n == 0x3000

/-- A plain blank: tab, line feed, vertical tab, form feed, carriage return or space. -/
def isPlainBlank (c : Char) : Bool :=
  (0x09 ≤ c.toNat && c.toNat ≤ 0x0D) || c == ' '

/-- The text without the characters of a class at its two ends. -/
def strip (inClass : Char → Bool) (chars : List Char) : List Char :=
  ((chars.dropWhile inClass).reverse.dropWhile inClass).reverse

end TileScript.Text
