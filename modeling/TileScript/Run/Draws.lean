import TileScript.Scalar

/-!
# Random draws

Sequences of draws between zero and one that are spread out evenly, one for each seed.
-/

namespace TileScript

/-- Stirs the bits of a word so that words close to each other end up far apart. -/
def stir (word : UInt64) : UInt64 :=
  let word := (word ^^^ (word >>> 30)) * 0xBF58476D1CE4E5B9
  let word := (word ^^^ (word >>> 27)) * 0x94D049BB133111EB
  word ^^^ (word >>> 31)

/-- The draws of a seed: 53 random bits as a fraction of one. -/
def drawsOfSeed (seed : Nat) (index : Nat) : Scalar :=
  let word := stir (UInt64.ofNat seed + UInt64.ofNat (index + 1) * 0x9E3779B97F4A7C15)
  .float (.ofRatio false ((word >>> 11).toNat * Binary64.unitsPerOne) (2 * Binary64.blockSize))

/-- The draws of a list in turn, starting over at its end; zero for the empty list. -/
def drawsOfList (draws : List Scalar) : Nat → Scalar :=
  let draws := draws.toArray
  fun index => draws[index % draws.size]?.getD (.int 0)

end TileScript
