import TileScript.Board.Csv

/-!
# Boards for people to read

The board with column numbers on top and row numbers on the left. An empty tile is a dot, and all
columns are as wide as the widest tile needs.
-/

namespace TileScript

/-- A text moved to the right end of a column. -/
def padLeft (width : Nat) (text : String) : String :=
  String.ofList (List.replicate (width - text.length) ' ') ++ text

/-- A tile as it is drawn. -/
def Tile.drawn (tile : Tile) : String := if tile.isEmpty then "." else tile.joined

/-- The width of the columns of a drawing: one more than the longest text, and at least three. A
drawing without any tile has none. -/
def columnWidth (cells : List (List String)) : Except Fault Nat :=
  match cells.flatten with
  | [] => .error .noCells
  | texts => .ok (max 3 ((texts.map String.length).foldl max 0 + 1))

/-- The drawing of a board. -/
def Board.drawing (board : Board) : Except Fault String :=
  match board with
  | [] => .ok "Board is empty"
  | first :: _ => do
    let cells := board.map fun tiles => tiles.map Tile.drawn
    let width ← columnWidth cells
    let header := "    " ++
      String.join ((List.range first.length).map fun column => padLeft width (toString column))
    let rows := cells.zipIdx.map fun (texts, row) =>
      padLeft 2 (toString row) ++ " |" ++ String.join (texts.map (padLeft width))
    return "\n".intercalate (header :: rows)

end TileScript
