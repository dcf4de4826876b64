import TileScript.Fault

/-!
# Amounts

How often something is to happen, as a host or an option of the command line says it. What they say
may be any value, and an option may be left with an empty list; only integers and truth values say
how often.

## Main definitions

* `Amount`: a value or an empty list.
* `Amount.display?`: how reports show an amount.
* `Amount.toCount`: the count that an amount is.
-/

namespace TileScript

/-- How often something is to happen. -/
inductive Amount where
  | value (scalar : Scalar)
  | emptyList
deriving DecidableEq

namespace Amount

/-- An amount that says nothing. -/
def unspecified : Amount := .value .null

/-- A count as an amount. -/
def ofInt (count : Int) : Amount := .value (.int count)

/-- The form in which reports show an amount. -/
def display? : Amount → Option String
  | .value scalar => scalar.display?
  | .emptyList => some "[]"

/-- The count that an amount is. -/
def toCount : Amount → Except Fault Int
  | .value (.int n) => .ok n
  | .value (.bool b) => .ok (if b then 1 else 0)
  | .value other => .error (.notCount other.kind)
  | .emptyList => .error (.notCount .list)

end Amount

end TileScript
