import TileScript.Fault

/-!
# Arithmetic on values

Integers are added, subtracted and multiplied exactly; as soon as a floating point number takes
part, both sides are floating point numbers and the result is rounded. Division and remainder
always work in floating point, except that the quotient of two integers is rounded only once, from
the exact fraction. Values that are no numbers have their own faults, and a text may be repeated.

## Main definitions

* `Number.toFloat`: a number in floating point; integers beyond all finite values have none.
* `Scalar.add`, `sub`, `mul`, `div`, `remainder`, `neg`, `floor`: the operations.
* `Scalar.less`: the order used between values.
* `Scalar.isNumber`, `Scalar.gridIndex?`: which values are numbers and which address the board.
-/

namespace TileScript

namespace Number

/-- The number in floating point. -/
def toFloat : Number → Except Fault Binary64
  | .int n => (Binary64.ofInt? n).elim (.error .tooLargeForFloat) .ok
  | .float x => .ok x

/-- An operation that is exact on integers and rounded otherwise. The left side is the first to
be converted. -/
def combine (exact : Int → Int → Int) (rounded : Binary64 → Binary64 → Binary64) :
    Number → Number → Except Fault Number
  | .int m, .int n => .ok (.int (exact m n))
  | a, b => do
    let x ← a.toFloat
    let y ← b.toFloat
    return .float (rounded x y)

/-- The quotient of two numbers. That of two integers is the value nearest to the fraction, however
large its terms are. -/
def div : Number → Number → Except Fault Number
  | .int m, .int n =>
    (Binary64.ofRatio (decide (m < 0) != decide (n < 0)) (m.natAbs * Binary64.unitsPerOne)
      n.natAbs).notInfinite?.elim (.error .quotientTooLarge) fun x => .ok (.float x)
  | a, b => do
    let x ← a.toFloat
    let y ← b.toFloat
    return .float (x.div y)

end Number

namespace Scalar

/-- An operation between numbers under the name that its fault shows. -/
def numeric (operator : String) (operation : Number → Number → Except Fault Number)
    (a b : Scalar) : Except Fault Scalar :=
  match a.number?, b.number? with
  | some m, some n => ofNumber <$> operation m n
  | _, _ => .error (.operands operator a.kind b.kind)

/-- The sum. A text on the left refuses everything that is no text. -/
def add : Scalar → Scalar → Except Fault Scalar
  | .text a, .text b => .ok (.text (a ++ b))
  | .text _, b => .error (.concatenation b.kind)
  | a, b => numeric "+" (Number.combine (· + ·) Binary64.add) a b

/-- The difference. -/
def sub (a b : Scalar) : Except Fault Scalar :=
  numeric "-" (Number.combine (· - ·) Binary64.sub) a b

/-- Whether an integer is one of 64 bits, as counts and indices have to be. -/
def isWordSized (n : Int) : Bool := -0x8000000000000000 ≤ n && n < 0x8000000000000000

/-- The number of characters from which on a text finds no room. -/
def textRoom : Nat := 0x1000000000

/-- A text written `count` times in a row. The count and the length have to be numbers of 64 bits,
and the text has to find room. -/
def repeatText (count : Int) (s : String) : Except Fault Scalar :=
  if !isWordSized count then .error .repetitionCount
  else if s = "" then .ok (.text "")
  else if !isWordSized (s.length * count.toNat) then .error .repetitionLength
  else if textRoom ≤ s.length * count.toNat then .error .noMemory
  else .ok (.text (String.join (List.replicate count.toNat s)))

/-- The product; a text times an integer repeats the text. -/
def mul : Scalar → Scalar → Except Fault Scalar
  | .text s, b => match b.number? with
    | some (.int n) => repeatText n s
    | _ => .error (.repetition b.kind)
  | a, .text s => match a.number? with
    | some (.int n) => repeatText n s
    | _ => .error (.repetition a.kind)
  | a, b => numeric "*" (Number.combine (· * ·) Binary64.mul) a b

/-- The quotient; the caller has excluded a divisor of zero. -/
def div (a b : Scalar) : Except Fault Scalar := numeric "/" Number.div a b

/-- A value in floating point. -/
def toFloat (a : Scalar) : Except Fault Binary64 :=
  match a.number? with
  | some m => m.toFloat
  | none => .error (.notReal a.kind)

/-- The remainder of the division toward zero, in floating point. An infinite dividend has none;
the caller has excluded a divisor of zero. -/
def remainder (a b : Scalar) : Except Fault Scalar := do
  let x ← a.toFloat
  let y ← b.toFloat
  match x, y with
  | .infinite _, .infinite _ | .infinite _, .finite .. => .error .remainderOfInfinity
  | _, _ => return .float (x.remainder y)

/-- The value with its sign changed. -/
def neg (a : Scalar) : Except Fault Scalar :=
  match a.number? with
  | some (.int n) => .ok (.int (-n))
  | some (.float x) => .ok (.float x.neg)
  | none => .error (.negation a.kind)

/-- The whole number at or just below a value. -/
def floor (a : Scalar) : Except Fault Int :=
  match a.number? with
  | some (.int n) => .ok n
  | some (.float .nan) => .error .floorOfNan
  | some (.float (.infinite _)) => .error .floorOfInfinity
  | some (.float (.finite negative code)) =>
    .ok (Binary64.signedUnits negative code / Binary64.unitsPerOne)
  | none => .error (.notReal a.kind)

/-- Whether the first value is below the second; numbers and texts are ordered among
themselves. -/
def less : Scalar → Scalar → Except Fault Bool
  | .text a, .text b => .ok (a < b)
  | a, b => match a.number?, b.number? with
    | some m, some n => .ok (m.lt n)
    | _, _ => .error (.order "<" a.kind b.kind)

/-- Whether a value is a number that is not not-a-number. Truth values do not count, and an integer
too large for floating point is a fault. -/
def isNumber : Scalar → Except Fault Bool
  | .int n => do
    let _ ← (Number.int n).toFloat
    return true
  | .float x => .ok (x != .nan)
  | .null | .bool _ | .text _ => .ok false

/-- The row or column that a value addresses, if it is a finite whole number. -/
def gridIndex? : Scalar → Except Fault (Option Int)
  | .int n => do
    let _ ← (Number.int n).toFloat
    return some n
  | .float x => .ok (if x.isIntegral then x.truncate? else none)
  | .null | .bool _ | .text _ => .ok none

/-- The tile that a pair of values addresses. The second is looked at only if the first addresses
a column. -/
def gridTile? (x y : Scalar) : Except Fault (Option (Int × Int)) := do
  match ← x.gridIndex? with
  | none => return none
  | some column =>
    match ← y.gridIndex? with
    | none => return none
    | some row => return some (column, row)

end Scalar

end TileScript
