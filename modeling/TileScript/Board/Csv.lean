import TileScript.Board

/-!
# Boards as comma separated values

One line a row and one field a tile, the ids on a tile joined by bars. A field is put in quotes only
where it has to be, and a line that would be empty because its one field is empty holds a pair of
quotes, so that it differs from the line of a row without tiles.
-/

namespace TileScript

/-- The ids on a tile, joined by bars. -/
def Tile.joined (tile : Tile) : String := "|".intercalate tile

/-- Whether a field has to be put in quotes. -/
def needsQuotes (field : String) : Bool :=
  field.toList.any fun c => c == ',' || c == '"' || c == '\n'

/-- A field in quotes, with the quotes inside it doubled. -/
def quotedField (field : String) : String :=
  String.ofList ('"' :: field.toList.flatMap (fun c => if c = '"' then ['"', '"'] else [c])
    ++ ['"'])

/-- A field as it stands in a line. -/
def csvField (field : String) : String := if needsQuotes field then quotedField field else field

/-- The line of a row. -/
def csvLine : List String → String
  | [""] => "\"\""
  | fields => ",".intercalate (fields.map csvField)

/-- The text of a board, each line with its end. -/
def Board.csv (board : Board) : String :=
  String.join (board.map fun tiles => csvLine (tiles.map Tile.joined) ++ "\n")

end TileScript
