/-!
# Binary64 numbers

The floating point numbers of the language, as plain data. Every finite magnitude is a whole
number of *units* of `2 ^ -1074`, the smallest positive value, and the magnitudes are numbered in
increasing order by their *codes*. Both views are natural numbers, so each operation is the exact
result in units followed by one rounding, `Binary64.ofRatio`, and nothing depends on the machine.

## Main definitions

* `Binary64`: not-a-number, the two infinities, and a sign with the code of a magnitude.
* `Binary64.unitsOfCode`, `Binary64.roundToCode`: from codes to units and back.
* `Binary64.ofRatio`: the value nearest to a fraction of units, ties to even.
* `Binary64.add`, `sub`, `mul`, `div`, `remainder`: the arithmetic.
-/

namespace TileScript

/-- The natural number nearest to `num / den`; halfway between two, the even one. -/
def roundHalfEven (num den : Nat) : Nat :=
  let quotient := num / den
  let rest := num % den
  if 2 * rest < den then quotient
  else if den < 2 * rest then quotient + 1
  else quotient + quotient % 2

/-- The number of magnitudes in a block, `2 ^ 52`. Inside a block they are evenly spaced. -/
def Binary64.blockSize : Nat := 4503599627370496

/-- The number of finite magnitudes, 2047 blocks. -/
def Binary64.codeCount : Nat := 9218868437227405312

/-- A floating point number with 53 significant bits. The code of a finite magnitude is its rank
among all magnitudes, so zero has code `0` and no value is written in two ways. -/
inductive Binary64 where
  | nan
  | infinite (negative : Bool)
  | finite (negative : Bool) (code : Fin Binary64.codeCount)
deriving DecidableEq, Inhabited

namespace Binary64

/-- How many units make one. -/
def unitsPerOne : Nat := Nat.pow 2 1074

/-- The number of units of a magnitude. In the first two blocks the codes count single units; after
that each block counts in steps twice as long as the block before it. -/
def unitsOfCode (code : Nat) : Nat :=
  if code < blockSize then code
  else (blockSize + code % blockSize) * Nat.pow 2 (code / blockSize - 1)

/-- The code of the magnitude nearest to `num / den` units, ties to even. It may lie beyond the
last finite code. With steps of `2 ^ shift` units, the rounded number of steps is below two blocks,
or it is two blocks exactly and its code is the first of the next block. -/
def roundToCode (num den : Nat) : Nat :=
  let shift := (num / den).log2 - 52
  shift * blockSize + roundHalfEven num (den * Nat.pow 2 shift)

/-- The value nearest to `num / den` units with the given sign; infinite beyond the last finite
magnitude. -/
def ofRatio (negative : Bool) (num den : Nat) : Binary64 :=
  let code := roundToCode num den
  if h : code < codeCount then .finite negative ⟨code, h⟩ else .infinite negative

/-- The value nearest to a whole number of units; a zero gets the given sign. -/
def ofUnits (zeroSign : Bool) (units : Int) : Binary64 :=
  ofRatio (if units = 0 then zeroSign else units < 0) units.natAbs 1

/-- Zero with a sign. -/
def signedZero (negative : Bool) : Binary64 := .finite negative ⟨0, by decide⟩

/-- The units of a sign and a code, as an integer. -/
def signedUnits (negative : Bool) (code : Nat) : Int :=
  if negative then -(unitsOfCode code : Int) else unitsOfCode code

/-- The value itself, or `none` if it is infinite. -/
def notInfinite? : Binary64 → Option Binary64
  | .infinite _ => none
  | x => some x

/-- The value nearest to an integer, or `none` where that would be infinite. -/
def ofInt? (n : Int) : Option Binary64 := (ofUnits false (n * unitsPerOne)).notInfinite?

/-- Whether the value is a finite whole number. -/
def isIntegral : Binary64 → Bool
  | .finite _ code => unitsOfCode code % unitsPerOne == 0
  | _ => false

/-- The whole number next to a finite value on the side of zero. -/
def truncate? : Binary64 → Option Int
  | .finite negative code => some ((signedUnits negative code).tdiv unitsPerOne)
  | _ => none

/-- Whether the value is neither infinite nor not-a-number. -/
def isFinite : Binary64 → Bool
  | .finite .. => true
  | _ => false

/-- Change of sign. -/
def neg : Binary64 → Binary64
  | .nan => .nan
  | .infinite negative => .infinite !negative
  | .finite negative code => .finite (!negative) code

/-- The sum, rounded once. Opposite infinities have none, and an exact zero is negative only if
both terms are. -/
def add : Binary64 → Binary64 → Binary64
  | .nan, _ | _, .nan => .nan
  | .infinite s, .infinite t => if s = t then .infinite s else .nan
  | .infinite s, .finite .. => .infinite s
  | .finite .., .infinite t => .infinite t
  | .finite s a, .finite t b => ofUnits (s && t) (signedUnits s a + signedUnits t b)

/-- The difference, rounded once. -/
def sub (x y : Binary64) : Binary64 := x.add y.neg

/-- The product, rounded once. Zero times infinity has none. -/
def mul : Binary64 → Binary64 → Binary64
  | .nan, _ | _, .nan => .nan
  | .infinite s, .infinite t => .infinite (s != t)
  | .infinite s, .finite t b => if b.val = 0 then .nan else .infinite (s != t)
  | .finite s a, .infinite t => if a.val = 0 then .nan else .infinite (s != t)
  | .finite s a, .finite t b => ofRatio (s != t) (unitsOfCode a * unitsOfCode b) unitsPerOne

/-- The quotient, rounded once. A zero divisor gives an infinity, or nothing for zero by zero. -/
def div : Binary64 → Binary64 → Binary64
  | .nan, _ | _, .nan => .nan
  | .infinite _, .infinite _ => .nan
  | .infinite s, .finite t _ => .infinite (s != t)
  | .finite s _, .infinite t => signedZero (s != t)
  | .finite s a, .finite t b =>
    if b.val = 0 then (if a.val = 0 then .nan else .infinite (s != t))
    else ofRatio (s != t) (unitsOfCode a * unitsPerOne) (unitsOfCode b)

/-- The remainder of a division toward zero. It has the sign of the dividend and is exact: the
remainder of two counts of units is a count of units no longer than the divisor. -/
def remainder : Binary64 → Binary64 → Binary64
  | .nan, _ | _, .nan | .infinite _, _ => .nan
  | x@(.finite ..), .infinite _ => x
  | .finite s a, .finite _ b =>
    if b.val = 0 then .nan else ofRatio s (unitsOfCode a % unitsOfCode b) 1

end Binary64

end TileScript
