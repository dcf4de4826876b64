import Mathlib.Data.List.Nodup
import TileScript.Board
import TileScript.Proofs.Number.Written

/-!
# Tiles of rectangular boards

What the changes of a board do tile by tile, and which places a rectangular board has. A change of
tiles keeps the lengths of the rows, so that a rectangle stays one.

## Main definitions

* `Board.IsRectangle`: all rows are of one length.

## Main statements

* `Board.tile?_modifyTile`, `Board.tile?_scrub`, `Board.tile?_blank`: the tiles after a change.
* `Board.IsRectangle.locateIndex?_eq_some_iff`: a rectangle is located exactly where it has tiles.
* `Board.ext_tile?`: boards of one shape are equal if their tiles are.
* `Board.nodup_flatten`: no text stands twice on a board whose tiles share none.
* `Board.perm_modifyTile`: what a change of a tile adds to the texts of a board.
-/

namespace TileScript.Board

variable {board : Board} {columns rows column row : ℕ}

/-- The board has the given number of rows, each with the given number of tiles. -/
structure IsRectangle (board : Board) (columns rows : ℕ) : Prop where
  length_eq : board.length = rows
  length_row : ∀ tiles ∈ board, tiles.length = columns

/-! ## Tiles after a change -/

theorem tile?_eq_some_iff {tile : Tile} :
    board.tile? column row = some tile ↔
      ∃ tiles, board[row]? = some tiles ∧ tiles[column]? = some tile := by
  simp [tile?, Option.bind_eq_some_iff]

/-- A changed tile is the only one that changes. -/
theorem tile?_modifyTile (board : Board) (column row column' row' : ℕ) (change : Tile → Tile) :
    (board.modifyTile column row change).tile? column' row' =
      if column' = column ∧ row' = row then (board.tile? column' row').map change
      else board.tile? column' row' := by
  simp only [tile?, modifyTile, Option.bind_eq_bind, List.getElem?_modify]
  by_cases hrow : row' = row
  · subst hrow
    cases board[row']? with
    | none => simp
    | some tiles =>
      by_cases hcolumn : column' = column
      · simp [hcolumn]
      · simp [hcolumn, Ne.symm hcolumn]
  · cases board[row']? with
    | none => simp
    | some tiles => simp [hrow, Ne.symm hrow]

@[simp] theorem isSome_tile?_modifyTile (board : Board) (column row column' row' : ℕ)
    (change : Tile → Tile) :
    ((board.modifyTile column row change).tile? column' row').isSome =
      (board.tile? column' row').isSome := by
  rw [tile?_modifyTile]
  split
  · rw [Option.isSome_map]
  · rfl

theorem modifyTile_modifyTile (board : Board) (column row : ℕ) (change change' : Tile → Tile) :
    (board.modifyTile column row change).modifyTile column row change' =
      board.modifyTile column row (change' ∘ change) := by
  simp only [modifyTile, List.modify_modify_eq]
  congr 1
  funext tiles
  exact List.modify_modify_eq change change' column tiles

theorem modifyTile_id (board : Board) (column row : ℕ) :
    board.modifyTile column row id = board := by
  have hrow : (fun tiles : List Tile => tiles.modify column id) = id := by
    funext tiles
    exact List.modify_id column tiles
  rw [modifyTile, hrow, List.modify_id]

theorem tile?_scrub (board : Board) (name : String) (column row : ℕ) :
    (board.scrub name).tile? column row =
      (board.tile? column row).map (·.filter (· != name)) := by
  simp only [tile?, scrub, Option.bind_eq_bind, List.getElem?_map]
  cases board[row]? with
  | none => rfl
  | some tiles => simp

theorem tile?_blank (columns rows column row : ℕ) :
    (blank columns rows).tile? column row =
      if column < columns ∧ row < rows then some [] else none := by
  simp only [tile?, blank, Option.bind_eq_bind, List.getElem?_replicate]
  by_cases hrow : row < rows
  · simp [hrow, List.getElem?_replicate]
  · simp [hrow]

/-! ## Lengths of rows -/

@[simp] theorem map_length_modifyTile (board : Board) (column row : ℕ) (change : Tile → Tile) :
    (board.modifyTile column row change).map List.length = board.map List.length := by
  apply List.ext_getElem
  · simp [modifyTile]
  · intro i hi hi'
    simp only [modifyTile, List.getElem_map, List.getElem_modify]
    split <;> simp

@[simp] theorem map_length_scrub (board : Board) (name : String) :
    (board.scrub name).map List.length = board.map List.length := by
  simp [scrub, Function.comp_def]

/-- Which values lie on a board is a matter of the lengths of its rows. -/
theorem locate_congr {other : Board} (h : other.map List.length = board.map List.length)
    (x y : Scalar) : other.locate x y = board.locate x y := by
  have hwidth : other.width = board.width := by simp only [width, ← List.head?_map, h]
  have hheight : other.height = board.height := by simpa [height] using congrArg List.length h
  simp only [locate, locateIndex?, hwidth, hheight]

/-- Boards with rows of the same lengths are equal if they are so tile by tile. -/
theorem ext_tile? {other : Board} (hlength : board.map List.length = other.map List.length)
    (htile : ∀ column row, board.tile? column row = other.tile? column row) : board = other := by
  have hrows : board.length = other.length := by simpa using congrArg List.length hlength
  apply List.ext_getElem hrows
  intro row hrow hrow'
  apply List.ext_getElem?
  intro column
  simpa [tile?, hrow, hrow'] using htile column row

/-! ## Rectangles -/

theorem isRectangle_blank (columns rows : ℕ) : (blank columns rows).IsRectangle columns rows :=
  ⟨by simp [blank], by simp [blank]⟩

namespace IsRectangle

/-- A board with the lengths of a rectangle is one. -/
theorem of_map_length {other : Board} (H : board.IsRectangle columns rows)
    (h : other.map List.length = board.map List.length) : other.IsRectangle columns rows := by
  refine ⟨by rw [← H.length_eq, ← List.length_map List.length, h, List.length_map], ?_⟩
  intro tiles htiles
  have hlength : tiles.length ∈ board.map List.length := h ▸ List.mem_map_of_mem htiles
  obtain ⟨tiles', htiles', heq⟩ := List.mem_map.mp hlength
  rw [← heq, H.length_row tiles' htiles']

theorem modifyTile (H : board.IsRectangle columns rows) (column row : ℕ) (change : Tile → Tile) :
    (board.modifyTile column row change).IsRectangle columns rows :=
  H.of_map_length (map_length_modifyTile board column row change)

theorem scrub (H : board.IsRectangle columns rows) (name : String) :
    (board.scrub name).IsRectangle columns rows :=
  H.of_map_length (map_length_scrub board name)

/-- The places of a rectangle. -/
theorem isSome_tile?_iff (H : board.IsRectangle columns rows) :
    (board.tile? column row).isSome = true ↔ column < columns ∧ row < rows := by
  rw [Option.isSome_iff_exists]
  simp only [tile?_eq_some_iff]
  constructor
  · rintro ⟨tile, tiles, htiles, htile⟩
    have hcolumn := (List.getElem?_eq_some_iff.mp htile).1
    have hrow := (List.getElem?_eq_some_iff.mp htiles).1
    rw [H.length_row tiles (List.mem_of_getElem? htiles)] at hcolumn
    exact ⟨hcolumn, H.length_eq ▸ hrow⟩
  · rintro ⟨hcolumn, hrow⟩
    have hrow' : row < board.length := by rwa [H.length_eq]
    have hcolumn' : column < board[row].length := by
      rwa [H.length_row _ (List.getElem_mem hrow')]
    exact ⟨_, _, List.getElem?_eq_getElem hrow', List.getElem?_eq_getElem hcolumn'⟩

theorem width_eq (H : board.IsRectangle columns rows) (hrow : 0 < rows) :
    board.width = columns := by
  cases board with
  | nil => simp [← H.length_eq] at hrow
  | cons tiles rest => exact H.length_row tiles List.mem_cons_self

/-- Whole numbers lie on a rectangle exactly where it has a tile. -/
theorem locateIndex?_eq_some_iff (H : board.IsRectangle columns rows) {x y : ℤ} :
    board.locateIndex? x y = some (column, row) ↔
      x = column ∧ y = row ∧ (board.tile? column row).isSome = true := by
  rw [H.isSome_tile?_iff, locateIndex?]
  have hheight : board.height = rows := H.length_eq
  split
  · next h =>
    have hwidth : board.width = columns := H.width_eq (by omega)
    simp only [Option.some.injEq, Prod.mk.injEq]
    omega
  · next h =>
    simp only [reduceCtorEq, false_iff]
    rintro ⟨rfl, rfl, hcolumn, hrow⟩
    have hwidth : board.width = columns := H.width_eq (by omega)
    omega

/-- The place of values that address a column and a row, on a rectangle or outside it. -/
theorem locate_eq (H : board.IsRectangle columns rows) {x y : Scalar}
    (hgrid : Scalar.gridTile? x y = .ok (some (column, row))) :
    board.locate x y =
      .ok (if (board.tile? column row).isSome then some (column, row) else none) := by
  rw [locate, hgrid]
  change Except.ok (board.locateIndex? column row) = _
  congr 1
  split
  · next h => exact H.locateIndex?_eq_some_iff.mpr ⟨rfl, rfl, h⟩
  · next h =>
    refine Option.eq_none_iff_forall_ne_some.mpr fun ⟨column', row'⟩ hlocate => h ?_
    obtain ⟨hcolumn, hrow, hsome⟩ := H.locateIndex?_eq_some_iff.mp hlocate
    rwa [Int.natCast_inj.mp hcolumn, Int.natCast_inj.mp hrow]

end IsRectangle

/-! ## The texts of a board -/

theorem mem_tiles_iff {tile : Tile} :
    tile ∈ board.flatten ↔ ∃ column row, board.tile? column row = some tile := by
  simp only [List.mem_flatten, tile?_eq_some_iff]
  constructor
  · rintro ⟨tiles, htiles, htile⟩
    obtain ⟨row, hrow⟩ := List.getElem?_of_mem htiles
    obtain ⟨column, hcolumn⟩ := List.getElem?_of_mem htile
    exact ⟨column, row, tiles, hrow, hcolumn⟩
  · rintro ⟨column, row, tiles, hrow, hcolumn⟩
    exact ⟨tiles, List.mem_of_getElem? hrow, List.mem_of_getElem? hcolumn⟩

theorem mem_flatten_iff {name : String} :
    name ∈ board.flatten.flatten ↔
      ∃ column row tile, board.tile? column row = some tile ∧ name ∈ tile := by
  rw [List.mem_flatten]
  constructor
  · rintro ⟨tile, htile, hname⟩
    obtain ⟨column, row, htile⟩ := mem_tiles_iff.mp htile
    exact ⟨column, row, tile, htile, hname⟩
  · rintro ⟨column, row, tile, htile, hname⟩
    exact ⟨tile, mem_tiles_iff.mpr ⟨column, row, htile⟩, hname⟩

/-- What one change of a tile has more than another, the board has more. -/
theorem perm_modifyTile {tile : Tile} (htile : board.tile? column row = some tile)
    {change change' : Tile → Tile} {names : List String}
    (h : (change tile).Perm (names ++ change' tile)) :
    (board.modifyTile column row change).flatten.flatten.Perm
      (names ++ (board.modifyTile column row change').flatten.flatten) := by
  obtain ⟨tiles, htiles, htile⟩ := tile?_eq_some_iff.mp htile
  obtain ⟨hrow, rfl⟩ := List.getElem?_eq_some_iff.mp htiles
  obtain ⟨hcolumn, rfl⟩ := List.getElem?_eq_some_iff.mp htile
  simp only [modifyTile, List.modify_eq_take_cons_drop hrow,
    List.modify_eq_take_cons_drop hcolumn, List.flatten_append, List.flatten_cons,
    List.append_assoc]
  generalize (board.take row).flatten.flatten = above, (board[row].take column).flatten = left,
    (board[row].drop (column + 1)).flatten ++ (board.drop (row + 1)).flatten.flatten = rest
  have htile := h.append_right rest
  rw [List.append_assoc] at htile
  -- The surplus comes to the front past the tiles to the left and the rows above.
  calc above ++ (left ++ (change board[row][column] ++ rest))
      _ |>.Perm (above ++ (left ++ (names ++ (change' board[row][column] ++ rest)))) :=
        (htile.append_left left).append_left above
      _ |>.Perm (above ++ (names ++ (left ++ (change' board[row][column] ++ rest)))) :=
        (List.perm_append_comm_assoc _ _ _).append_left above
      _ |>.Perm (names ++ (above ++ (left ++ (change' board[row][column] ++ rest)))) :=
        List.perm_append_comm_assoc _ _ _

/-- No text stands twice on a board if none stands twice on a tile or on two tiles. -/
theorem nodup_flatten
    (hnodup : ∀ column row tile, board.tile? column row = some tile → tile.Nodup)
    (hplace : ∀ column row tile column' row' tile', board.tile? column row = some tile →
      board.tile? column' row' = some tile' → ∀ name ∈ tile, name ∈ tile' →
      column = column' ∧ row = row') :
    board.flatten.flatten.Nodup := by
  have htile : ∀ row column (hrow : row < board.length) (hcolumn : column < board[row].length),
      board.tile? column row = some board[row][column] := fun row column hrow hcolumn =>
    tile?_eq_some_iff.mpr
      ⟨_, List.getElem?_eq_getElem hrow, List.getElem?_eq_getElem hcolumn⟩
  rw [List.flatten_flatten, List.nodup_flatten]
  simp only [List.forall_mem_map, List.pairwise_map]
  refine ⟨fun tiles htiles => ?_, ?_⟩
  · -- Within a row.
    obtain ⟨row, hrow, rfl⟩ := List.getElem_of_mem htiles
    refine List.nodup_flatten.mpr ⟨fun tile hmem => ?_, ?_⟩
    · obtain ⟨column, hcolumn, rfl⟩ := List.getElem_of_mem hmem
      exact hnodup _ _ _ (htile row column hrow hcolumn)
    · refine List.pairwise_iff_getElem.mpr fun i j hi hj hij name hname hname' => ?_
      have := (hplace _ _ _ _ _ _ (htile row i hrow hi) (htile row j hrow hj) name hname hname').1
      omega
  · -- Between two rows.
    refine List.pairwise_iff_getElem.mpr fun i j hi hj hij name hname hname' => ?_
    obtain ⟨tile, htile₁, hname⟩ := List.mem_flatten.mp hname
    obtain ⟨tile', htile₂, hname'⟩ := List.mem_flatten.mp hname'
    obtain ⟨column, hcolumn, rfl⟩ := List.getElem_of_mem htile₁
    obtain ⟨column', hcolumn', rfl⟩ := List.getElem_of_mem htile₂
    have := (hplace _ _ _ _ _ _ (htile i column hi hcolumn) (htile j column' hj hcolumn') name
      hname hname').2
    omega

theorem perm_append {tile : Tile} (htile : board.tile? column row = some tile)
    (names : List String) :
    (board.modifyTile column row (· ++ names)).flatten.flatten.Perm
      (names ++ board.flatten.flatten) := by
  have h : (board.modifyTile column row (· ++ names)).flatten.flatten.Perm
      (names ++ (board.modifyTile column row id).flatten.flatten) :=
    perm_modifyTile htile List.perm_append_comm
  rwa [modifyTile_id] at h

theorem perm_erase {tile : Tile} (htile : board.tile? column row = some tile) {name : String}
    (hname : name ∈ tile) :
    board.flatten.flatten.Perm
      ([name] ++ (board.modifyTile column row (·.erase name)).flatten.flatten) := by
  have h : (board.modifyTile column row id).flatten.flatten.Perm
      ([name] ++ (board.modifyTile column row (·.erase name)).flatten.flatten) :=
    perm_modifyTile htile (List.perm_cons_erase hname)
  rwa [modifyTile_id] at h

/-- A tile and the board without it. -/
theorem perm_clear {tile : Tile} (htile : board.tile? column row = some tile) :
    board.flatten.flatten.Perm
      (tile ++ (board.modifyTile column row fun _ => []).flatten.flatten) := by
  have h : (board.modifyTile column row id).flatten.flatten.Perm
      (tile ++ (board.modifyTile column row fun _ => []).flatten.flatten) :=
    perm_modifyTile htile (by simp)
  rwa [modifyTile_id] at h

/-- On a board without repeated texts, a tile has none. -/
theorem nodup_tile {tile : Tile} (hnodup : board.flatten.flatten.Nodup)
    (htile : board.tile? column row = some tile) : tile.Nodup :=
  (List.nodup_append.mp ((perm_clear htile).nodup_iff.mp hnodup)).1

/-- On a board without repeated texts, a text of a tile is on no other. -/
theorem notMem_of_nodup {column' row' : ℕ} {tile tile' : Tile}
    (hnodup : board.flatten.flatten.Nodup) (htile : board.tile? column row = some tile)
    (htile' : board.tile? column' row' = some tile') (hother : ¬(column' = column ∧ row' = row))
    {name : String} (hname : name ∈ tile) : name ∉ tile' := by
  intro hname'
  have hcleared : (board.modifyTile column row fun _ => []).tile? column' row' = some tile' := by
    rw [tile?_modifyTile, if_neg hother, htile']
  have hrest : name ∈ (board.modifyTile column row fun _ => []).flatten.flatten :=
    mem_flatten_iff.mpr ⟨column', row', tile', hcleared, hname'⟩
  have hapart := (List.nodup_append.mp ((perm_clear htile).nodup_iff.mp hnodup)).2.2
  exact hapart name hname name hrest rfl

end TileScript.Board
