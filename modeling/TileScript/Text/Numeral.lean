import TileScript.Fault
import TileScript.Text.Digit

/-!
# Numerals in text

Reading integers and floating point numbers from text that a host, a board or a command line
supplies. Digits may be of any script, single underscores may stand between digits, and plain
blanks and those outside ASCII may stand around the numeral.

## Main definitions

* `Text.readInteger`: an optional sign and at most 4300 digits.
* `Text.readFloat`: decimal numerals, infinities and not-a-number.
* `Text.isDecimal`: whether a text, blanks around it aside, is a decimal numeral.
-/

namespace TileScript.Text

/-- The characters of a numeral: digits in ASCII, and the blanks around them cut off. -/
def numeralChars (text : String) : List Char :=
  strip isPlainBlank (text.toList.map foldNumeral)

/-- Leaves the underscores out, provided each stands between two digits. -/
def dropUnderscores? (before : Char) : List Char → Option (List Char)
  | [] => some []
  | c :: rest =>
    if c = '_' then
      if before.isDigit && rest.head?.any Char.isDigit then dropUnderscores? c rest else none
    else (dropUnderscores? c rest).map (c :: ·)

/-- Reads an integer. The number of digits is judged before what follows them. -/
def readInteger (text : String) : Except Fault Int :=
  let (negative, body) := Decimal.splitSign (numeralChars text)
  let run := body.takeWhile fun c => c.isDigit || c = '_'
  let rest := body.dropWhile fun c => c.isDigit || c = '_'
  match dropUnderscores? ' ' run with
  | none | some [] => .error (.notInteger text)
  | some digits =>
    if 4300 < digits.length then .error (.digitsToRead digits.length)
    else if !rest.isEmpty then .error (.notInteger text)
    else .ok (if negative then -(digitsValue digits : Int) else digitsValue digits)

/-- Reads a floating point number. -/
def readFloat (text : String) : Except Fault Binary64 :=
  match dropUnderscores? ' ' (numeralChars text) with
  | none => .error (.notFloat text)
  | some chars =>
    let (negative, body) := Decimal.splitSign chars
    let word := String.ofList (body.map Char.toLower)
    if word = "inf" || word = "infinity" then .ok (.infinite negative)
    else if word = "nan" then .ok .nan
    else match Decimal.ofChars? chars with
      | some d => .ok d.toBinary64
      | none => .error (.notFloat text)

/-- Whether a text is a decimal numeral with any blanks around it. -/
def isDecimal (text : String) : Bool :=
  (Decimal.ofChars? ((strip isBlank text.toList).map foldNumeral)).isSome

end TileScript.Text
