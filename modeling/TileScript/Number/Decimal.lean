import TileScript.Number.Binary64

/-!
# Decimal numerals

A decimal numeral is a sign, a natural number of digits and a power of ten. This module reads
numerals from text, turns them into the nearest `Binary64`, and finds and writes the shortest
numeral that stands for a given `Binary64`.

## Main definitions

* `Decimal.ofChars?`: the grammar `[sign] digits [. digits] [e [sign] digits]`.
* `Decimal.toBinary64`: the nearest floating point value.
* `Decimal.shortest`: the fewest digits that read back to the same magnitude.
* `Binary64.text`: the written form, positional for leading exponents from -4 up to 15.
-/

namespace TileScript

/-- The value of a run of ASCII digits, most significant first. -/
def digitsValue (digits : List Char) : Nat :=
  digits.foldl (fun value c => 10 * value + (c.toNat - '0'.toNat)) 0

/-- The number `digits * 10 ^ exponent`, with a sign that also zero may carry. -/
structure Decimal where
  negative : Bool
  digits : Nat
  exponent : Int
deriving DecidableEq

namespace Decimal

/-- Takes an optional leading sign off; `true` for a minus. -/
def splitSign : List Char → Bool × List Char
  | '-' :: rest => (true, rest)
  | '+' :: rest => (false, rest)
  | chars => (false, chars)

/-- The exponent part of a numeral: nothing, or `e` with an integer after it. -/
def exponentOfChars? : List Char → Option Int
  | [] => some 0
  | mark :: rest =>
    let (negative, digits) := splitSign rest
    if (mark = 'e' || mark = 'E') && !digits.isEmpty && digits.all Char.isDigit then
      some (if negative then -(digitsValue digits : Int) else digitsValue digits)
    else none

/-- Reads a numeral: at least one digit before or after an optional point, then the exponent. -/
def ofChars? (chars : List Char) : Option Decimal :=
  let (negative, chars) := splitSign chars
  let whole := chars.takeWhile Char.isDigit
  let rest := chars.dropWhile Char.isDigit
  let (fraction, rest) := match rest with
    | '.' :: rest => (rest.takeWhile Char.isDigit, rest.dropWhile Char.isDigit)
    | rest => ([], rest)
  if whole.isEmpty && fraction.isEmpty then none
  else (exponentOfChars? rest).map fun exponent =>
    ⟨negative, digitsValue (whole ++ fraction), exponent - fraction.length⟩

/-- The nearest floating point value, ties to even. The first three cases only keep the powers of
ten small: a nonzero numeral with an exponent over 308 is beyond all finite values, and one below
`2 ^ -1075` is nearest to zero. -/
def toBinary64 (d : Decimal) : Binary64 :=
  if d.digits = 0 then .signedZero d.negative
  else if 308 < d.exponent then .infinite d.negative
  else if d.digits.log2 + 1 + 3 * d.exponent ≤ -1076 then .signedZero d.negative
  else .ofRatio d.negative (d.digits * Nat.pow 10 d.exponent.toNat * Binary64.unitsPerOne)
    (Nat.pow 10 (-d.exponent).toNat)

/-- The power of ten of the leading digit of a positive number of units. The factor `10 ^ 400`
makes a whole number of even the smallest magnitude. -/
def leadingExponent (units : Nat) : Int :=
  (Nat.toDigits 10 (units * Nat.pow 10 400 / Binary64.unitsPerOne)).length - 401

/-- The numeral on the grid of step `10 ^ exponent` that reads back to the magnitude `code`, if
one of its two neighbours there does. Of two that do, the nearer, and of two equally near the one
with an even last digit. -/
def onGrid? (code : Fin Binary64.codeCount) (exponent : Int) : Option Decimal :=
  let num := Binary64.unitsOfCode code * Nat.pow 10 (-exponent).toNat
  let den := Binary64.unitsPerOne * Nat.pow 10 exponent.toNat
  let below : Decimal := ⟨false, num / den, exponent⟩
  let above : Decimal := ⟨false, num / den + 1, exponent⟩
  let readsBack (d : Decimal) : Bool := d.toBinary64 = .finite false code
  if readsBack below && readsBack above then
    some (if roundHalfEven num den = num / den then below else above)
  else if readsBack below then some below
  else if readsBack above then some above
  else none

/-- All the digits of a magnitude. A unit is `5 ^ 1074 * 10 ^ -1074`, so the expansion ends. -/
def exact (code : Fin Binary64.codeCount) : Decimal :=
  ⟨false, Binary64.unitsOfCode code * Nat.pow 5 1074, -1074⟩

/-- The numeral with the fewest digits that reads back to the magnitude `code`, tried on the grids
of one to seventeen digits. Seventeen are enough for every magnitude; the exact expansion after
them keeps the function right by its shape. -/
def shortest (code : Fin Binary64.codeCount) : Decimal :=
  let leading := leadingExponent (Binary64.unitsOfCode code)
  ((List.range 17).findSome? fun (more : Nat) => onGrid? code (leading - more)).getD (exact code)

/-- Moves the zeros at the end of the digits into the exponent. -/
def trim (d : Decimal) : Decimal :=
  if _ : d.digits ≠ 0 ∧ d.digits % 10 = 0 then
    trim { d with digits := d.digits / 10, exponent := d.exponent + 1 }
  else d
termination_by d.digits
decreasing_by omega

/-- The exponent part of a written number: a sign and at least two digits. -/
def exponentChars (exponent : Int) : List Char :=
  let digits := Nat.toDigits 10 exponent.natAbs
  'e' :: (if exponent < 0 then '-' else '+') ::
    (if digits.length < 2 then '0' :: digits else digits)

/-- Writes the digits of a number with the point after the first `point` of them: positional
notation from `0.0001` up to sixteen digits before the point, with an exponent otherwise. -/
def layout (digits : List Char) (point : Int) : List Char :=
  if -4 < point ∧ point ≤ 16 then
    if point ≤ 0 then '0' :: '.' :: List.replicate (-point).toNat '0' ++ digits
    else
      let whole := digits.take point.toNat ++ List.replicate (point.toNat - digits.length) '0'
      let fraction := digits.drop point.toNat
      whole ++ '.' :: (if fraction.isEmpty then ['0'] else fraction)
  else
    let fraction := digits.drop 1
    digits.take 1 ++ (if fraction.isEmpty then [] else '.' :: fraction)
      ++ exponentChars (point - 1)

end Decimal

namespace Binary64

/-- The written form of a magnitude. -/
def codeChars (code : Fin Binary64.codeCount) : List Char :=
  if code.val = 0 then ['0', '.', '0']
  else
    let d := (Decimal.shortest code).trim
    let digits := Nat.toDigits 10 d.digits
    Decimal.layout digits (digits.length + d.exponent)

/-- The written form: the fewest digits that read back, `nan`, `inf`, and a minus where the sign
is negative, also on zero. -/
def text : Binary64 → String
  | .nan => "nan"
  | .infinite negative => if negative then "-inf" else "inf"
  | .finite negative code =>
    String.ofList (if negative then '-' :: codeChars code else codeChars code)

end Binary64

end TileScript
