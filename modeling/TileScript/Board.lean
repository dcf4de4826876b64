import TileScript.Scalar.Arithmetic
import TileScript.Text.Numeral

/-!
# Boards

A board is a list of rows of tiles, and a tile holds the texts of the ids stacked on it, the lowest
first. Boards that programs make are rectangles; hosts may supply others, so every access to a tile
may find none.

## Main definitions

* `Board`, `Tile`: the data.
* `Board.locate`: the column and row of a pair of values that lies on the board.
* `Board.tile?`, `Board.modifyTile`: a tile and its change.
* `Board.scrub`: takes an id off every tile.
* `Board.cell`: a tile by any pair of values, counting from the end for negative ones.
-/

namespace TileScript

/-- The ids stacked on one place. -/
abbrev Tile := List String

/-- The rows of tiles, from the top. -/
abbrev Board := List (List Tile)

namespace Board

/-- A rectangle of empty tiles. -/
def blank (width height : Nat) : Board := List.replicate height (List.replicate width [])

/-- The number of columns, taken from the first row. -/
def width (board : Board) : Nat := (board.head?.map List.length).getD 0

/-- The number of rows. -/
def height (board : Board) : Nat := board.length

/-- The tile in a column and a row. -/
def tile? (board : Board) (column row : Nat) : Option Tile := do
  let tiles ← board[row]?
  tiles[column]?

/-- The board with one tile changed. -/
def modifyTile (board : Board) (column row : Nat) (change : Tile → Tile) : Board :=
  board.modify row fun tiles => tiles.modify column change

/-- The board with an id taken off every tile. -/
def scrub (board : Board) (name : String) : Board :=
  board.map fun tiles => tiles.map fun tile => tile.filter (· != name)

/-- The column and row of whole numbers that lie on the board. -/
def locateIndex? (board : Board) (x y : Int) : Option (Nat × Nat) :=
  if 0 ≤ x ∧ x < board.width ∧ 0 ≤ y ∧ y < board.height then some (x.toNat, y.toNat) else none

/-- The column and row of a pair of values, if it lies on the board. -/
def locate (board : Board) (x y : Scalar) : Except Fault (Option (Nat × Nat)) := do
  match ← Scalar.gridTile? x y with
  | none => return none
  | some (x, y) => return board.locateIndex? x y

end Board

/-- The integer that a value is read as: numbers lose their fraction, texts are numerals. -/
def Scalar.toInt : Scalar → Except Fault Int
  | .null => .error (.noInteger .null)
  | .bool b => .ok (if b then 1 else 0)
  | .int n => .ok n
  | .float .nan => .error .floorOfNan
  | .float (.infinite _) => .error .floorOfInfinity
  | .float (.finite negative code) =>
    .ok ((Binary64.signedUnits negative code).tdiv Binary64.unitsPerOne)
  | .text s => Text.readInteger s

/-- The element at an index; negative ones count from the end. An index has to be a number of 64
bits. -/
def elementAt {α : Type} (list : List α) (index : Int) : Except Fault α :=
  if !Scalar.isWordSized index then .error .indexTooLarge
  else
    let index := if index < 0 then index + list.length else index
    match if index < 0 then none else list[index.toNat]? with
    | some a => .ok a
    | none => .error .outsideRow

/-- The tile of a pair of values. The row is found before the column is looked at. -/
def Board.cell (board : Board) (x y : Scalar) : Except Fault Tile := do
  let row ← y.toInt
  let tiles ← elementAt board row
  let column ← x.toInt
  elementAt tiles column

end TileScript
