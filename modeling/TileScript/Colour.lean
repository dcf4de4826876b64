import TileScript.Scalar.Arithmetic

/-!
# Colours of states

The low eight bits of a state are a colour: three bits of red, three of green and two of blue, from
the highest down. States that are no finite numbers are black.
-/

namespace TileScript

/-- A colour with components from 0 to 255. -/
structure Colour where
  red : Nat
  green : Nat
  blue : Nat
deriving DecidableEq

namespace Colour

/-- The colour of an integer. Its bits are those of two's complement, so that a negative integer
has them too. -/
def ofInt (state : Int) : Colour where
  red := (state / 32 % 8).toNat * 36
  green := (state / 4 % 8).toNat * 36
  blue := (state % 4).toNat * 85

/-- The colour of a state; a fraction does not count. -/
def ofState (state : Scalar) : Except Fault Colour := do
  if ← state.isNumber then
    match state with
    | .int n => return ofInt n
    | .float x => return ofInt (x.truncate?.getD 0)
    | _ => return ofInt 0
  else return ofInt 0

end Colour

end TileScript
