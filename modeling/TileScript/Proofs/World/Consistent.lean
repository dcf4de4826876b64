import TileScript.Proofs.Board
import TileScript.Proofs.Table
import TileScript.World.Edit

/-!
# Consistent worlds

A world keeps where its objects are in two ways: the records say it object by object, the board
tile by tile. The two agree if every tile holds the texts of exactly those objects that are recorded
there. An id and its text determine each other, so that the board can be read back.

`World.Consistent` says what a reader of a world relies on. `World.Sound` says the same tile by
tile, and that the recorded places are ones that the board can be asked for; this is what the
changes of a world keep. In the course of a change some texts are off the board for a while:
`World.SoundWithout` names them. What the changes do exactly depends on less, `World.Regular` and
`World.Standing`.

## Main definitions

* `World.Consistent`: the board and the records agree.
* `World.Regular`: the texts on the board and the keys of the records are ids.
* `World.Standing`: an object stands on a tile.
* `World.SoundWithout`: the board shows all records but those with the given texts.
* `World.Sound`: the invariant of the changes.

## Main statements

* `World.Sound.consistent`: sound worlds are consistent.
* `World.sound_empty`: the empty world is sound.
-/

namespace TileScript

/-- The object is recorded in the column and the row. -/
def TileObject.StandsAt (object : TileObject) (column row : ℕ) : Prop :=
  object.x = .int column ∧ object.y = .int row

theorem TileObject.StandsAt.unique {object : TileObject} {column row column' row' : ℕ}
    (h : object.StandsAt column row) (h' : object.StandsAt column' row') :
    column = column' ∧ row = row' := by
  obtain ⟨hx, hy⟩ := h
  obtain ⟨hx', hy'⟩ := h'
  rw [hx, Scalar.int.injEq, Int.natCast_inj] at hx'
  rw [hy, Scalar.int.injEq, Int.natCast_inj] at hy'
  exact ⟨hx', hy'⟩

/-- The board and the records of a world agree. -/
structure World.Consistent (world : World) : Prop where
  /-- The board has as many rows as the canvas is high, each as long as the canvas is wide. -/
  size : ∃ columns rows : ℕ, world.canvas = ⟨some (.int columns), some (.int rows)⟩ ∧
    world.board.IsRectangle columns rows
  /-- No two records have one key. -/
  keys : world.objects.keys.Nodup
  /-- Every key is a number in its normal form and the id in its record. -/
  ids : ∀ entry ∈ world.objects.entries, entry.1.IsId ∧ entry.2.id = entry.1
  /-- Every object stands on a tile of the board. Its text is there, and nowhere else. -/
  standing : ∀ entry ∈ world.objects.entries, ∃ column row tile name,
    entry.2.StandsAt column row ∧ world.board.tile? column row = some tile ∧
    entry.1.display? = some name ∧ name ∈ tile ∧ world.board.flatten.flatten.count name = 1
  /-- Every text on the board is that of an object. -/
  live : ∀ name ∈ world.board.flatten.flatten, ∃ entry ∈ world.objects.entries,
    entry.1.display? = some name

/-- The board is a rectangle, the records are kept under ids, each under one of its own, and the
texts on the board are those of ids. It is not said where the texts stand, nor whether there are
records for them. -/
structure World.Regular (world : World) : Prop where
  rectangle : ∃ columns rows, world.board.IsRectangle columns rows
  keyed : world.objects.Keyed Scalar.IsId
  names : ∀ name ∈ world.board.flatten.flatten, ∃ id : Scalar, id.IsId ∧ id.display? = some name

/-- The object of a key, with the text of the key and the record, stands on a tile of the board. -/
structure World.Standing (world : World) (key : Scalar) (name : String) (object : TileObject)
    (column row : ℕ) (tile : Tile) : Prop where
  recorded : (key, object) ∈ world.objects.entries
  text : key.display? = some name
  place : object.StandsAt column row
  shown : world.board.tile? column row = some tile
  mem : name ∈ tile

namespace World.Consistent

variable {world : World}

theorem regular (H : world.Consistent) : world.Regular where
  rectangle := by
    obtain ⟨columns, rows, -, hboard⟩ := H.size
    exact ⟨columns, rows, hboard⟩
  keyed := ⟨fun entry hentry => (H.ids entry hentry).1, H.keys⟩
  names name hname := by
    obtain ⟨entry, hentry, htext⟩ := H.live name hname
    exact ⟨entry.1, (H.ids entry hentry).1, htext⟩

/-- No text stands twice on the board. -/
theorem nodup (H : world.Consistent) : world.board.flatten.flatten.Nodup := by
  apply List.nodup_iff_count_le_one.mpr
  intro name
  by_cases hname : name ∈ world.board.flatten.flatten
  · obtain ⟨entry, hentry, htext⟩ := H.live name hname
    obtain ⟨_, _, _, name', _, _, htext', _, hcount⟩ := H.standing entry hentry
    obtain rfl : name' = name := Option.some.inj (htext'.symm.trans htext)
    exact hcount.le
  · rw [List.count_eq_zero_of_not_mem hname]
    exact Nat.zero_le 1

theorem exists_standing (H : world.Consistent) {key : Scalar} {object : TileObject}
    (hobject : (key, object) ∈ world.objects.entries) :
    ∃ name column row tile, world.Standing key name object column row tile := by
  obtain ⟨column, row, tile, name, hplace, htile, hname, hmem, -⟩ := H.standing _ hobject
  exact ⟨name, column, row, tile, hobject, hname, hplace, htile, hmem⟩

/-- An object whose text is on a tile is recorded there. -/
theorem standsAt_of_mem (H : world.Consistent) {entry : Scalar × TileObject}
    (hentry : entry ∈ world.objects.entries) {name : String}
    (hname : entry.1.display? = some name) {column row : ℕ} {tile : Tile}
    (htile : world.board.tile? column row = some tile) (hmem : name ∈ tile) :
    entry.2.StandsAt column row := by
  obtain ⟨name', column', row', tile', S⟩ := H.exists_standing hentry
  obtain rfl : name' = name := Option.some.inj (S.text.symm.trans hname)
  by_cases hplace : column = column' ∧ row = row'
  · obtain ⟨rfl, rfl⟩ := hplace
    exact S.place
  · exact absurd hmem (Board.notMem_of_nodup H.nodup S.shown htile hplace S.mem)

end World.Consistent

/-! ## Entries at their places -/

theorem Scalar.exact_isId : Key.Exact Scalar.IsId := fun _ _ ha hb => ha.same_iff hb

/-- An entry with the given text is recorded in the column and the row. -/
def Occupies (entry : Scalar × TileObject) (name : String) (column row : ℕ) : Prop :=
  entry.1.display? = some name ∧ entry.2.StandsAt column row

/-- The entry has its key as its id, and a place on the board that values can address. -/
def Board.Places (board : Board) (entry : Scalar × TileObject) : Prop :=
  entry.2.id = entry.1 ∧ ∃ column row : ℕ, entry.2.StandsAt column row ∧
    Scalar.gridTile? (.int column) (.int row) = .ok (some (column, row)) ∧
    (board.tile? column row).isSome = true

theorem Board.Places.congr {board board' : Board} {entry : Scalar × TileObject}
    (H : board.Places entry)
    (h : ∀ column row, (board'.tile? column row).isSome = (board.tile? column row).isSome) :
    board'.Places entry := by
  obtain ⟨hid, column, row, hplace, hgrid, htile⟩ := H
  exact ⟨hid, column, row, hplace, hgrid, by rwa [h]⟩

/-- An entry is determined by its text. -/
theorem Table.Keyed.eq_of_display? {table : Table Scalar TileObject}
    (H : table.Keyed Scalar.IsId) {a b : Scalar × TileObject} {name : String}
    (ha : a ∈ table.entries) (hb : b ∈ table.entries) (hname : a.1.display? = some name)
    (hname' : b.1.display? = some name) : a = b := by
  have hkey := (H.admitted a ha).eq_of_display? (H.admitted b hb) hname hname'
  obtain ⟨key, value⟩ := a
  obtain ⟨key', value'⟩ := b
  obtain rfl : key = key' := hkey
  rw [H.unique ha hb]

/-! ## Sound worlds -/

/-- The board is a rectangle of the size of the canvas. A tile holds the texts of the objects that
are recorded there, each once, except for the absent ones, which no tile holds. -/
structure World.SoundWithout (world : World) (absent : List String) : Prop where
  size : ∃ columns rows : ℕ, world.canvas = ⟨some (.int columns), some (.int rows)⟩ ∧
    world.board.IsRectangle columns rows
  keyed : world.objects.Keyed Scalar.IsId
  placed : ∀ entry ∈ world.objects.entries, world.board.Places entry
  nodup : ∀ column row tile, world.board.tile? column row = some tile → tile.Nodup
  shown : ∀ column row tile, world.board.tile? column row = some tile → ∀ name,
    name ∈ tile ↔ name ∉ absent ∧ ∃ entry ∈ world.objects.entries, Occupies entry name column row

/-- A world whose board shows all records. -/
def World.Sound (world : World) : Prop := world.SoundWithout []

namespace World

theorem sound_empty : empty.Sound where
  size := ⟨0, 0, rfl, rfl, by simp [empty]⟩
  keyed := .empty
  placed := by simp [empty, Table.empty]
  nodup := by simp [Board.tile?, empty]
  shown := by simp [Board.tile?, empty]

namespace SoundWithout

variable {world : World} {absent : List String}

/-- A text stands on one tile only. -/
theorem place_unique (H : world.SoundWithout absent) {column row column' row' : ℕ}
    {tile tile' : Tile} (htile : world.board.tile? column row = some tile)
    (htile' : world.board.tile? column' row' = some tile') {name : String} (hname : name ∈ tile)
    (hname' : name ∈ tile') : column = column' ∧ row = row' := by
  obtain ⟨-, entry, hentry, htext, hplace⟩ := (H.shown _ _ _ htile name).mp hname
  obtain ⟨-, entry', hentry', htext', hplace'⟩ := (H.shown _ _ _ htile' name).mp hname'
  obtain rfl := H.keyed.eq_of_display? hentry hentry' htext htext'
  exact hplace.unique hplace'

/-- The text of a tile is that of an object. -/
theorem exists_entry (H : world.SoundWithout absent) {column row : ℕ} {tile : Tile}
    (htile : world.board.tile? column row = some tile) {name : String} (hname : name ∈ tile) :
    ∃ entry ∈ world.objects.entries, entry.1.display? = some name :=
  have ⟨_, entry, hentry, htext, _⟩ := (H.shown _ _ _ htile name).mp hname
  ⟨entry, hentry, htext⟩

/-- The canvas tells which tiles there are. -/
theorem isSome_tile?_iff_of_canvas_eq (H : world.SoundWithout absent) {other : World}
    {absent' : List String} (H' : other.SoundWithout absent') (h : other.canvas = world.canvas)
    (column row : ℕ) :
    (other.board.tile? column row).isSome = true ↔
      (world.board.tile? column row).isSome = true := by
  obtain ⟨columns, rows, hcanvas, hboard⟩ := H.size
  obtain ⟨columns', rows', hcanvas', hboard'⟩ := H'.size
  rw [h, hcanvas] at hcanvas'
  simp only [Canvas.mk.injEq, Option.some.injEq, Scalar.int.injEq, Int.natCast_inj] at hcanvas'
  rw [hboard.isSome_tile?_iff, hboard'.isSome_tile?_iff, hcanvas'.1, hcanvas'.2]

end SoundWithout

namespace Sound

variable {world : World}

/-- The text of an object is on the tile where the object is recorded. -/
theorem mem_tile (H : world.Sound) {entry : Scalar × TileObject} {name : String}
    {column row : ℕ} {tile : Tile} (hentry : entry ∈ world.objects.entries)
    (hname : entry.1.display? = some name) (hplace : entry.2.StandsAt column row)
    (htile : world.board.tile? column row = some tile) : name ∈ tile :=
  (H.shown _ _ _ htile name).mpr ⟨List.not_mem_nil, entry, hentry, hname, hplace⟩

/-- Sound worlds are consistent. -/
theorem consistent (H : world.Sound) : world.Consistent where
  size := H.size
  keys := H.keyed.nodup
  ids entry hentry := ⟨H.keyed.admitted entry hentry, (H.placed entry hentry).1⟩
  standing entry hentry := by
    obtain ⟨-, column, row, hplace, -, htile⟩ := H.placed entry hentry
    obtain ⟨tile, htile⟩ := Option.isSome_iff_exists.mp htile
    obtain ⟨name, hname, -⟩ := (H.keyed.admitted entry hentry).exists_name
    have hmem := H.mem_tile hentry hname hplace htile
    have hnodup : world.board.flatten.flatten.Nodup := Board.nodup_flatten H.nodup
      fun _ _ _ _ _ _ htile htile' _ => H.place_unique htile htile'
    exact ⟨column, row, tile, name, hplace, htile, hname, hmem,
      List.count_eq_one_of_mem hnodup (Board.mem_flatten_iff.mpr ⟨_, _, _, htile, hmem⟩)⟩
  live name hname := by
    obtain ⟨column, row, tile, htile, hname⟩ := Board.mem_flatten_iff.mp hname
    exact H.exists_entry htile hname

end Sound

end World

end TileScript
