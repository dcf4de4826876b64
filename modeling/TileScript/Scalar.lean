import TileScript.Number.Decimal
import TileScript.Text.Quoted

/-!
# Scalars

The values that programs compute with and that hosts pass in: nothing, truth values, unbounded
integers, floating point numbers and texts. Integers and floating point numbers are different
kinds but are compared by their exact value, and a truth value counts as zero or one.

## Main definitions

* `Scalar`, `Scalar.Kind`: the values and the names of their kinds.
* `Number`: what arithmetic works on, with its exact order.
* `Scalar.same`: equality of values, also used for keys.
* `Scalar.normalize`: a finite whole floating point number becomes an integer.
* `Scalar.display?`, `Scalar.quoted?`: the two written forms; an integer of more than 4300 digits
  has none.
-/

namespace TileScript

/-- A number of the language. -/
inductive Number where
  | int (n : Int)
  | float (x : Binary64)
deriving DecidableEq

/-- Where a number stands on the line, in units of `2 ^ -1074`. -/
inductive Place where
  | negInfinity
  | units (n : Int)
  | posInfinity
deriving DecidableEq

namespace Place

/-- The order of the line. -/
def lt : Place → Place → Bool
  | .units m, .units n => m < n
  | .negInfinity, .negInfinity | .posInfinity, _ | _, .negInfinity => false
  | .negInfinity, _ | _, .posInfinity => true

end Place

namespace Number

/-- The place of a number; not-a-number has none. -/
def place? : Number → Option Place
  | .int n => some (.units (n * Binary64.unitsPerOne))
  | .float .nan => none
  | .float (.infinite negative) => some (if negative then .negInfinity else .posInfinity)
  | .float (.finite negative code) => some (.units (Binary64.signedUnits negative code))

/-- Equality of exact values; not-a-number equals nothing. -/
def same : Number → Number → Bool
  | .int m, .int n => m == n
  | a, b => match a.place?, b.place? with
    | some p, some q => p == q
    | _, _ => false

/-- The order of exact values; not-a-number is below and above nothing. -/
def lt : Number → Number → Bool
  | .int m, .int n => m < n
  | a, b => match a.place?, b.place? with
    | some p, some q => p.lt q
    | _, _ => false

/-- The order of exact values or equality. -/
def le (a b : Number) : Bool := a.lt b || a.same b

end Number

/-- A value. -/
inductive Scalar where
  | null
  | bool (value : Bool)
  | int (value : Int)
  | float (value : Binary64)
  | text (value : String)
deriving DecidableEq, Inhabited

namespace Scalar

/-- The kinds of values, and that of lists, which no value is. -/
inductive Kind where
  | null
  | bool
  | int
  | float
  | text
  | list
deriving DecidableEq

/-- The name of a kind in messages. -/
def Kind.name : Kind → String
  | .null => "NoneType"
  | .bool => "bool"
  | .int => "int"
  | .float => "float"
  | .text => "str"
  | .list => "list"

/-- The kind of a value. -/
def kind : Scalar → Kind
  | .null => .null
  | .bool _ => .bool
  | .int _ => .int
  | .float _ => .float
  | .text _ => .text

/-- The number that a value is in arithmetic and comparison. -/
def number? : Scalar → Option Number
  | .bool b => some (.int (if b then 1 else 0))
  | .int n => some (.int n)
  | .float x => some (.float x)
  | .null | .text _ => none

/-- A number as a value. -/
def ofNumber : Number → Scalar
  | .int n => .int n
  | .float x => .float x

/-- Equality of values: numbers by their exact value, texts and nothing with their own kind. -/
def same : Scalar → Scalar → Bool
  | .null, .null => true
  | .text a, .text b => a == b
  | a, b => match a.number?, b.number? with
    | some m, some n => m.same n
    | _, _ => false

/-- Whether a value counts as true: zero, the empty text and nothing do not. -/
def truthy : Scalar → Bool
  | .null => false
  | .bool b => b
  | .int n => n != 0
  | .float x => !Number.same (.float x) (.int 0)
  | .text s => s != ""

/-- A finite whole floating point number becomes an integer, so that ids print as `2` and not as
`2.0`; every other value stays. -/
def normalize : Scalar → Scalar
  | .float x => if x.isIntegral then (x.truncate?.map .int).getD (.float x) else .float x
  | value => value

/-- Integers below this magnitude have at most 4300 digits and can be written. -/
def writtenBound : Nat := Nat.pow 10 4300

/-- The decimal form of an integer. -/
def intText (n : Int) : String :=
  let digits := Nat.toDigits 10 n.natAbs
  String.ofList (if n < 0 then '-' :: digits else digits)

/-- The written form of an integer of at most 4300 digits. -/
def intText? (n : Int) : Option String :=
  if n.natAbs < writtenBound then some (intText n) else none

/-- The form in which messages and reports show a value. -/
def display? : Scalar → Option String
  | .null => some "None"
  | .bool b => some (if b then "True" else "False")
  | .int n => intText? n
  | .float x => some x.text
  | .text s => some s

/-- The form in which a value stands inside a shown structure: texts are quoted. -/
def quoted? : Scalar → Option String
  | .text s => some (Text.quoted s)
  | value => value.display?

instance : Coe String Scalar := ⟨.text⟩

/-- A line put together from values, each in the form in which messages show it. Fixed wording
stands among them as texts. -/
def line? (pieces : List Scalar) : Option String :=
  (pieces.mapM display?).map String.join

end Scalar

end TileScript
