import TileScript.Proofs.World.Consistent

/-!
# Changes keep worlds sound

Every change of a world is put together from a few moves of texts: a text is lifted off the board, a
tile is cleared, a record is dropped, and a text is put on a tile while its record is set to that
tile. Each of them changes which texts are absent from the board, and a change starts and ends with
none absent. On sound worlds the texts of a tile are those of ids, so that no change stops half way:
one that fails has changed nothing.

## Main definitions

* `Outcome.IsWhole`: a change that either is done or leaves the world as it was.
* `World.Edit`, `World.edit`: a change with its arguments, and the world after it.

## Main statements

* `World.Sound.isWhole_resize`, `World.Sound.isWhole_spawn`, `World.Sound.isWhole_despawn`,
  `World.Sound.isWhole_move`: one change of a sound world, and what can be written of it.
* `World.Sound.edits`: any number of changes.
-/

namespace TileScript

/-- The change gave a world and a result with `done`, or it failed and left the world as it was. -/
def Outcome.IsWhole {α : Type} (world : World) (done : World → α → Prop) : Outcome α → Prop
  | (after, .ok a) => done after a
  | (after, .error _) => after = world

theorem Outcome.IsWhole.sound {α : Type} {world : World} {done : World → α → Prop}
    {outcome : Outcome α} (h : outcome.IsWhole world done) (H : world.Sound)
    (hdone : ∀ after a, done after a → after.Sound) : outcome.1.Sound := by
  obtain ⟨after, result⟩ := outcome
  cases result with
  | ok a => exact hdone after a h
  | error fault =>
    obtain rfl : after = world := h
    exact H

theorem Outcome.IsWhole.eq_of_error {α : Type} {world : World} {done : World → α → Prop}
    {outcome : Outcome α} (h : outcome.IsWhole world done) {fault : Fault}
    (hfault : outcome.2.map (fun _ => ()) = .error fault) : outcome.1 = world := by
  obtain ⟨after, result⟩ := outcome
  cases result with
  | ok a => cases hfault
  | error _ => exact h

namespace World

variable {world : World} {absent : List String}

/-! ## Moves of texts -/

/-- The tiles after a text is lifted off the tile where it is, or off all tiles. -/
theorem Sound.tile?_lift (H : world.Sound) {name : String} {place : Option (ℕ × ℕ)}
    (hplace : ∀ column row, place = some (column, row) →
      ∃ tile, world.board.tile? column row = some tile ∧ name ∈ tile) (column row : ℕ) :
    (lift world.board name place).tile? column row =
      (world.board.tile? column row).map (·.filter (· != name)) := by
  cases place with
  | none => exact Board.tile?_scrub _ _ _ _
  | some place =>
    obtain ⟨column', row'⟩ := place
    obtain ⟨tile', htile', hname⟩ := hplace column' row' rfl
    rw [lift, Board.tile?_modifyTile]
    split
    · next hsame =>
      obtain ⟨rfl, rfl⟩ := hsame
      rw [htile', Option.map_some, Option.map_some, (H.nodup _ _ _ htile').erase_eq_filter]
    · next hother =>
      cases htile : world.board.tile? column row with
      | none => rfl
      | some tile =>
        -- The text is on one tile only.
        have hnot : name ∉ tile := fun hmem => hother (H.place_unique htile htile' hmem hname)
        rw [Option.map_some, List.filter_eq_self.mpr]
        intro other hmem
        rw [bne_iff_ne]
        rintro rfl
        exact hnot hmem

/-- Lifting a text makes it absent. -/
theorem Sound.lift (H : world.Sound) (name : String) (place : Option (ℕ × ℕ))
    (hplace : ∀ column row, place = some (column, row) →
      ∃ tile, world.board.tile? column row = some tile ∧ name ∈ tile) :
    ({ world with board := lift world.board name place } : World).SoundWithout [name] where
  size := by
    obtain ⟨columns, rows, hcanvas, hboard⟩ := H.size
    refine ⟨columns, rows, hcanvas, ?_⟩
    cases place with
    | none => exact hboard.scrub name
    | some place => exact hboard.modifyTile _ _ _
  keyed := H.keyed
  placed entry hentry := (H.placed entry hentry).congr fun column row => by
    simp [H.tile?_lift hplace]
  nodup column row tile' htile' := by
    rw [H.tile?_lift hplace, Option.map_eq_some_iff] at htile'
    obtain ⟨tile, htile, rfl⟩ := htile'
    exact (H.nodup _ _ _ htile).filter _
  shown column row tile' htile' other := by
    rw [H.tile?_lift hplace, Option.map_eq_some_iff] at htile'
    obtain ⟨tile, htile, rfl⟩ := htile'
    simp only [List.mem_filter, bne_iff_ne, H.shown _ _ _ htile, List.not_mem_nil,
      not_false_eq_true, true_and, List.mem_singleton, and_comm]

namespace SoundWithout

/-- Clearing a tile makes its texts absent. -/
theorem clear (H : world.SoundWithout absent) {column row : ℕ} {tile : Tile}
    (htile : world.board.tile? column row = some tile) :
    ({ world with board := world.board.modifyTile column row fun _ => [] } : World).SoundWithout
      (tile ++ absent) where
  size := by
    obtain ⟨columns, rows, hcanvas, hboard⟩ := H.size
    exact ⟨columns, rows, hcanvas, hboard.modifyTile _ _ _⟩
  keyed := H.keyed
  placed entry hentry := (H.placed entry hentry).congr fun _ _ =>
    Board.isSome_tile?_modifyTile _ _ _ _ _ _
  nodup column' row' tile' htile' := by
    rw [Board.tile?_modifyTile] at htile'
    split at htile'
    · obtain ⟨_, -, rfl⟩ := Option.map_eq_some_iff.mp htile'
      exact List.nodup_nil
    · exact H.nodup _ _ _ htile'
  shown column' row' tile' htile' name := by
    rw [Board.tile?_modifyTile] at htile'
    split at htile'
    · next hsame =>
      obtain ⟨rfl, rfl⟩ := hsame
      obtain ⟨_, -, rfl⟩ := Option.map_eq_some_iff.mp htile'
      simp only [List.not_mem_nil, false_iff, List.mem_append, not_or, not_and, and_imp]
      exact fun hnot habsent hentry => hnot ((H.shown _ _ _ htile name).mpr ⟨habsent, hentry⟩)
    · next hother =>
      have hnot : name ∈ tile' → name ∉ tile := fun hmem hmem' =>
        hother (H.place_unique htile' htile hmem hmem')
      have hshown := H.shown _ _ _ htile' name
      rw [List.mem_append, not_or, and_assoc, ← hshown]
      exact ⟨fun hmem => ⟨hnot hmem, hmem⟩, And.right⟩

/-- Dropping the record of an absent text. -/
theorem drop {name : String} (H : world.SoundWithout (name :: absent)) {id : Scalar}
    (hid : id.IsId) (hname : id.display? = some name) :
    ({ world with objects := world.objects.erase id } : World).SoundWithout absent where
  size := H.size
  keyed := H.keyed.erase
  placed entry hentry :=
    H.placed entry ((H.keyed.mem_erase Scalar.exact_isId hid).mp hentry).1
  nodup := H.nodup
  shown column row tile htile other := by
    rw [H.shown _ _ _ htile]
    constructor
    · rintro ⟨habsent, entry, hentry, hother⟩
      rw [List.mem_cons, not_or] at habsent
      have hne : entry.1 ≠ id := by
        rintro rfl
        exact habsent.1 (Option.some.inj (hother.1.symm.trans hname))
      exact ⟨habsent.2, entry, (H.keyed.mem_erase Scalar.exact_isId hid).mpr ⟨hentry, hne⟩, hother⟩
    · rintro ⟨habsent, entry, hentry, hother⟩
      obtain ⟨hentry, hne⟩ := (H.keyed.mem_erase Scalar.exact_isId hid).mp hentry
      refine ⟨?_, entry, hentry, hother⟩
      rw [List.mem_cons, not_or]
      refine ⟨?_, habsent⟩
      rintro rfl
      exact hne ((H.keyed.admitted entry hentry).eq_of_display? hid hother.1 hname)

/-- Putting an absent text on a tile and its record in order. -/
theorem put {name : String} (H : world.SoundWithout (name :: absent)) (hnot : name ∉ absent)
    {id : Scalar} (hid : id.IsId) (hname : id.display? = some name) {column row : ℕ}
    (hgrid : Scalar.gridTile? (.int column) (.int row) = .ok (some (column, row)))
    (htile : (world.board.tile? column row).isSome = true) (object : TileObject)
    (hobject : object.id = id) (hplace : object.StandsAt column row)
    {objects : Table Scalar TileObject} (hkeyed : objects.Keyed Scalar.IsId)
    (hobjects : ∀ entry, entry ∈ objects.entries ↔
      entry = (id, object) ∨ entry ∈ world.objects.entries ∧ entry.1 ≠ id) :
    ({ world with
        board := world.board.modifyTile column row (· ++ [name])
        objects } : World).SoundWithout absent := by
  -- The other texts are shown as before.
  have hothers : ∀ column' row' other,
      (∃ entry ∈ objects.entries, Occupies entry other column' row') ↔
      (other = name ∧ column' = column ∧ row' = row) ∨
        other ≠ name ∧ ∃ entry ∈ world.objects.entries, Occupies entry other column' row' := by
    intro column' row' other
    constructor
    · rintro ⟨entry, hentry, hoccupies⟩
      rcases (hobjects entry).mp hentry with rfl | ⟨hentry', hne⟩
      · have hother : other = name := Option.some.inj (hoccupies.1.symm.trans hname)
        obtain ⟨rfl, rfl⟩ := hoccupies.2.unique hplace
        exact .inl ⟨hother, rfl, rfl⟩
      · refine .inr ⟨?_, entry, hentry', hoccupies⟩
        rintro rfl
        exact hne ((H.keyed.admitted entry hentry').eq_of_display? hid hoccupies.1 hname)
    · rintro (⟨rfl, rfl, rfl⟩ | ⟨hne, entry, hentry, hoccupies⟩)
      · exact ⟨(id, object), (hobjects _).mpr (.inl rfl), hname, hplace⟩
      · refine ⟨entry, (hobjects _).mpr (.inr ⟨hentry, ?_⟩), hoccupies⟩
        rintro rfl
        exact hne (Option.some.inj (hoccupies.1.symm.trans hname))
  have hmem : ∀ column' row' tile', world.board.tile? column' row' = some tile' → ∀ other,
      other ∈ tile' ↔ (other ∉ absent ∧ other ≠ name ∧
        ∃ entry ∈ world.objects.entries, Occupies entry other column' row') := by
    intro column' row' tile' htile' other
    rw [H.shown _ _ _ htile' other, List.mem_cons, not_or, and_comm (a := ¬other = name), and_assoc]
  constructor
  · obtain ⟨columns, rows, hcanvas, hboard⟩ := H.size
    exact ⟨columns, rows, hcanvas, hboard.modifyTile _ _ _⟩
  · exact hkeyed
  · intro entry hentry
    have hplaced : world.board.Places entry := by
      rcases (hobjects entry).mp hentry with rfl | ⟨hentry', -⟩
      · exact ⟨hobject, column, row, hplace, hgrid, htile⟩
      · exact H.placed entry hentry'
    exact hplaced.congr fun _ _ => Board.isSome_tile?_modifyTile _ _ _ _ _ _
  · intro column' row' tile' htile'
    rw [Board.tile?_modifyTile] at htile'
    split at htile'
    · obtain ⟨tile, htile, rfl⟩ := Option.map_eq_some_iff.mp htile'
      refine List.nodup_append.mpr ⟨H.nodup _ _ _ htile, List.nodup_singleton _, ?_⟩
      rintro other hother _ hname' rfl
      exact ((hmem _ _ _ htile other).mp hother).2.1 (List.mem_singleton.mp hname')
    · exact H.nodup _ _ _ htile'
  · intro column' row' tile' htile' other
    rw [Board.tile?_modifyTile] at htile'
    split at htile'
    · next hsame =>
      obtain ⟨tile, htile, rfl⟩ := Option.map_eq_some_iff.mp htile'
      rw [List.mem_append, List.mem_singleton, hmem _ _ _ htile, hothers]
      grind
    · next hother =>
      rw [hmem _ _ _ htile', hothers]
      grind

/-- Carrying an absent text to a tile, with the record of its object. -/
theorem carry {name : String} (H : world.SoundWithout (name :: absent)) (hnot : name ∉ absent)
    {id : Scalar} {object : TileObject} (hobject : (id, object) ∈ world.objects.entries)
    (hname : id.display? = some name) {column row : ℕ}
    (hgrid : Scalar.gridTile? (.int column) (.int row) = .ok (some (column, row)))
    (htile : (world.board.tile? column row).isSome = true) (change : TileObject → TileObject)
    (hid : (change object).id = object.id) (hplace : (change object).StandsAt column row) :
    ({ world with
        board := world.board.modifyTile column row (· ++ [name])
        objects := world.objects.modify id change } : World).SoundWithout absent :=
  have hisId := H.keyed.admitted _ hobject
  H.put hnot hisId hname hgrid htile (change object) (hid.trans (H.placed _ hobject).1) hplace
    (H.keyed.modify Scalar.exact_isId hisId change)
    fun _ => H.keyed.mem_modify Scalar.exact_isId hisId hobject

end SoundWithout

/-! ## Resizing -/

instance (object : TileObject) (column row : ℕ) : Decidable (object.StandsAt column row) :=
  inferInstanceAs (Decidable (_ ∧ _))

/-- The texts of the entries that are recorded at a place, in their order. -/
def namesAt (entries : List (Scalar × TileObject)) (column row : ℕ) : List String :=
  entries.filterMap fun entry => if entry.2.StandsAt column row then entry.1.display? else none

/-- Whether a record lies in a rectangle of the given size. -/
def isWithin (columns rows : ℕ) (object : TileObject) : Bool :=
  match object.x, object.y with
  | .int x, .int y => decide (0 ≤ x ∧ x < columns ∧ 0 ≤ y ∧ y < rows)
  | _, _ => false

theorem isWithin_iff {object : TileObject} {columns rows column row : ℕ}
    (h : object.StandsAt column row) :
    isWithin columns rows object = true ↔ column < columns ∧ row < rows := by
  simp [isWithin, h.1, h.2]

theorem mem_namesAt {entries : List (Scalar × TileObject)} {column row : ℕ} {name : String} :
    name ∈ namesAt entries column row ↔ ∃ entry ∈ entries, Occupies entry name column row := by
  simp only [namesAt, List.mem_filterMap, Option.ite_none_right_eq_some, Occupies, and_comm]

theorem namesAt_cons {entry : Scalar × TileObject} {rest : List (Scalar × TileObject)}
    {column row column' row' : ℕ} {name : String} (hname : entry.1.display? = some name)
    (hplace : entry.2.StandsAt column row) :
    namesAt (entry :: rest) column' row' =
      (if column' = column ∧ row' = row then [name] else []) ++ namesAt rest column' row' := by
  have hiff : entry.2.StandsAt column' row' ↔ column' = column ∧ row' = row :=
    ⟨fun h => h.unique hplace, by rintro ⟨rfl, rfl⟩; exact hplace⟩
  rw [namesAt, List.filterMap_cons, ← namesAt]
  by_cases hsame : column' = column ∧ row' = row
  · rw [if_pos (hiff.mpr hsame), if_pos hsame, hname, List.singleton_append]
  · rw [if_neg (mt hiff.mp hsame), if_neg hsame, List.nil_append]

theorem nodup_namesAt {entries : List (Scalar × TileObject)}
    (H : (Table.mk entries).Keyed Scalar.IsId) (column row : ℕ) :
    (namesAt entries column row).Nodup := by
  refine List.pairwise_filterMap.mpr ((List.Nodup.of_map _ H.nodup).imp_of_mem ?_)
  intro a b ha hb hne name hname name' hname' heq
  rw [Option.ite_none_right_eq_some] at hname hname'
  subst heq
  exact hne (H.eq_of_display? ha hb hname.2 hname'.2)

section Restack

variable {board : Board} {key : Scalar} {object : TileObject} {name : String}
  {rest : List (Scalar × TileObject)}

theorem restack_cons_of_some {column row : ℕ}
    (hlocate : board.locate object.x object.y = .ok (some (column, row)))
    (hname : Scalar.line [key] = .ok name) :
    restack board ((key, object) :: rest) =
      let after := restack (board.modifyTile column row (· ++ [name])) rest
      { after with kept := (key, object) :: after.kept } := by
  rw [restack, hlocate, hname]

theorem restack_cons_of_none (hlocate : board.locate object.x object.y = .ok none)
    (hname : Scalar.line [key] = .ok name) :
    restack board ((key, object) :: rest) =
      let after := restack board rest
      { after with dropped := name :: after.dropped } := by
  rw [restack, hlocate, hname]

end Restack

/-- Putting entries back on a rectangle keeps those that lie in it, drops the others, and adds the
texts to the tiles in their order. -/
theorem restack_eq {entries : List (Scalar × TileObject)} {board : Board} {columns rows : ℕ}
    (hboard : board.IsRectangle columns rows) (hkeyed : (Table.mk entries).Keyed Scalar.IsId)
    (hplaced : ∀ entry ∈ entries, ∃ column row : ℕ, entry.2.StandsAt column row ∧
      Scalar.gridTile? (.int column) (.int row) = .ok (some (column, row))) :
    ∃ board' dropped,
      restack board entries =
        ⟨board', entries.filter fun entry => isWithin columns rows entry.2, dropped, none⟩ ∧
      dropped.map some =
        (entries.filter fun entry => !isWithin columns rows entry.2).map (·.1.display?) ∧
      board'.IsRectangle columns rows ∧
      ∀ column row, board'.tile? column row =
        (board.tile? column row).map (· ++ namesAt entries column row) := by
  induction entries generalizing board with
  | nil => exact ⟨board, [], rfl, rfl, hboard, by simp [namesAt]⟩
  | cons entry rest ih =>
    obtain ⟨key, object⟩ := entry
    obtain ⟨column, row, hplace, hgrid⟩ := hplaced _ List.mem_cons_self
    obtain ⟨name, hname, -⟩ := (hkeyed.admitted _ List.mem_cons_self).exists_name
    have hline := Scalar.line_of_display? hname
    have hrest := hkeyed.of_sublist (List.sublist_cons_self (key, object) rest)
    have hplaced' := fun entry hentry => hplaced entry (List.mem_cons_of_mem _ hentry)
    have hlocate := hboard.locate_eq hgrid
    rw [← hplace.1, ← hplace.2] at hlocate
    have hiff := hboard.isSome_tile?_iff.trans (isWithin_iff hplace).symm
    by_cases hinside : (board.tile? column row).isSome = true
    · rw [if_pos hinside] at hlocate
      obtain ⟨board', dropped, hrestack, hdropped, hboard', htiles⟩ :=
        ih (hboard.modifyTile column row (· ++ [name])) hrest hplaced'
      refine ⟨board', dropped, ?_, ?_, hboard', fun column' row' => ?_⟩
      · rw [restack_cons_of_some hlocate hline, hrestack]
        simp only [List.filter_cons, hiff.mp hinside, if_true]
      · simp [hiff.mp hinside, hdropped]
      · rw [htiles, Board.tile?_modifyTile, namesAt_cons hname hplace]
        split
        · simp only [Option.map_map, Function.comp_def, List.append_assoc]
        · rw [List.nil_append]
    · rw [if_neg hinside] at hlocate
      obtain ⟨board', dropped, hrestack, hdropped, hboard', htiles⟩ := ih hboard hrest hplaced'
      refine ⟨board', name :: dropped, ?_, ?_, hboard', fun column' row' => ?_⟩
      · rw [restack_cons_of_none hlocate hline, hrestack]
        simp only [List.filter_cons, mt hiff.mpr hinside, if_false, Bool.false_eq_true]
      · simp [mt hiff.mpr hinside, hdropped, hname]
      · rw [htiles, namesAt_cons hname hplace]
        split
        · next hsame =>
          obtain ⟨rfl, rfl⟩ := hsame
          rw [Option.not_isSome_iff_eq_none.mp hinside]
          rfl
        · rw [List.nil_append]

/-- The objects of a sound world are put back on an empty board. -/
theorem Sound.restack_blank (H : world.Sound) (columns rows : ℕ) :
    ∃ board dropped,
      restack (.blank columns rows) world.objects.entries =
        ⟨board, world.objects.entries.filter fun entry => isWithin columns rows entry.2, dropped,
          none⟩ ∧
      dropped.map some = (world.objects.entries.filter fun entry =>
        !isWithin columns rows entry.2).map (·.1.display?) ∧
      board.IsRectangle columns rows ∧
      ∀ column row, board.tile? column row =
        if column < columns ∧ row < rows then some (namesAt world.objects.entries column row)
        else none := by
  obtain ⟨board, dropped, hrestack, hdropped, hboard, htiles⟩ :=
    restack_eq (Board.isRectangle_blank columns rows) H.keyed fun entry hentry =>
      have ⟨_, column, row, hplace, hgrid, _⟩ := H.placed entry hentry
      ⟨column, row, hplace, hgrid⟩
  refine ⟨board, dropped, hrestack, hdropped, hboard, fun column row => ?_⟩
  rw [htiles, Board.tile?_blank]
  split <;> rfl

/-- The sizes of boards are positive numbers. -/
theorem planResize_eq_ok_iff {width height : Scalar} {columns rows : ℕ} :
    planResize width height = .ok (columns, rows) ↔
      Scalar.gridTile? width height = .ok (some (columns, rows)) ∧ 0 < columns ∧ 0 < rows := by
  rw [planResize, bind_eq_ok_iff]
  constructor
  · rintro ⟨place, hgrid, h⟩
    cases place with
    | none => cases h
    | some place =>
      obtain ⟨m, n⟩ := place
      dsimp only at h
      split at h
      · cases h
      · next hpos =>
        rw [not_or, Int.not_le, Int.not_le] at hpos
        obtain ⟨rfl, rfl⟩ := Prod.mk.inj (Except.ok.inj h)
        rw [Int.toNat_of_nonneg hpos.1.le, Int.toNat_of_nonneg hpos.2.le]
        exact ⟨hgrid, by omega, by omega⟩
  · rintro ⟨hgrid, hcolumns, hrows⟩
    refine ⟨_, hgrid, ?_⟩
    have hpos : ¬((columns : ℤ) ≤ 0 ∨ (rows : ℤ) ≤ 0) := by omega
    simp only [hpos, if_false]
    rfl

theorem Sound.isWhole_resize (H : world.Sound) (width height : Scalar) :
    (world.resize width height).IsWhole world fun after _ =>
      (width.Written ∧ height.Written) ∧ after.Sound := by
  rw [World.resize]
  cases hplan : planResize width height with
  | error fault => rfl
  | ok size =>
    obtain ⟨columns, rows⟩ := size
    obtain ⟨board, dropped, hrestack, -, hboard, htiles⟩ := H.restack_blank columns rows
    have htile : ∀ {column row tile}, board.tile? column row = some tile →
        column < columns ∧ row < rows ∧ tile = namesAt world.objects.entries column row := by
      intro column row tile htile
      rw [htiles] at htile
      split at htile
      · next h => exact ⟨h.1, h.2, (Option.some.inj htile).symm⟩
      · cases htile
    simp only [hrestack]
    refine ⟨Scalar.written_of_gridTile? (planResize_eq_ok_iff.mp hplan).1, ?_⟩
    constructor
    · exact ⟨columns, rows, rfl, hboard⟩
    · exact H.keyed.of_sublist List.filter_sublist
    · intro entry hentry
      obtain ⟨hentry, hwithin⟩ := List.mem_filter.mp hentry
      obtain ⟨hid, column, row, hplace, hgrid, -⟩ := H.placed entry hentry
      exact ⟨hid, column, row, hplace, hgrid,
        hboard.isSome_tile?_iff.mpr ((isWithin_iff hplace).mp hwithin)⟩
    · intro column row tile h
      obtain ⟨-, -, rfl⟩ := htile h
      exact nodup_namesAt H.keyed _ _
    · intro column row tile h name
      obtain ⟨hcolumn, hrow, rfl⟩ := htile h
      simp only [mem_namesAt, List.not_mem_nil, not_false_eq_true, true_and, List.mem_filter]
      constructor
      · rintro ⟨entry, hentry, hoccupies⟩
        exact ⟨entry, ⟨hentry, (isWithin_iff hoccupies.2).mpr ⟨hcolumn, hrow⟩⟩, hoccupies⟩
      · rintro ⟨entry, ⟨hentry, -⟩, hoccupies⟩
        exact ⟨entry, hentry, hoccupies⟩

/-! ## Spawning -/

/-- A checked placement is that of an id on a tile of the board. -/
theorem planSpawn_eq_ok {columns rows : ℕ} (hboard : world.board.IsRectangle columns rows)
    {id x y : Scalar} {plan : Placement} (h : world.planSpawn id x y = .ok plan) :
    plan.id.IsId ∧ id.normalize = plan.id ∧ plan.id.display? = some plan.name ∧
      Scalar.gridTile? (.int plan.column) (.int plan.row) = .ok (some (plan.column, plan.row)) ∧
      (world.board.tile? plan.column plan.row).isSome = true := by
  rw [planSpawn] at h
  obtain ⟨id, hid, h⟩ := bind_eq_ok_iff.mp h
  obtain ⟨place, hgrid, h⟩ := bind_eq_ok_iff.mp h
  cases place with
  | none => cases h
  | some place =>
    obtain ⟨x', y'⟩ := place
    cases hlocate : world.board.locateIndex? x' y' with
    | none => simp only [hlocate] at h; cases h
    | some place =>
      obtain ⟨column, row⟩ := place
      simp only [hlocate] at h
      obtain ⟨name, hname, h⟩ := bind_eq_ok_iff.mp h
      obtain rfl := Except.ok.inj h
      obtain ⟨rfl, rfl, htile⟩ := hboard.locateIndex?_eq_some_iff.mp hlocate
      exact ⟨Scalar.isId_of_requireId hid, (Scalar.requireId_eq_ok_iff.mp hid).2,
        Scalar.display?_of_line hname, Scalar.gridTile?_int hgrid, htile⟩

/-- Removing the records of absent texts. -/
theorem SoundWithout.evict {names : List String} (H : world.SoundWithout (names ++ absent))
    (hnames : ∀ name ∈ names, ∃ id : Scalar, id.IsId ∧ id.display? = some name) :
    ∃ objects, evict world.objects names = (objects, .ok ()) ∧
      ({ world with objects } : World).SoundWithout absent := by
  induction names generalizing world with
  | nil => exact ⟨world.objects, rfl, H⟩
  | cons name names ih =>
    obtain ⟨id, hid, hname⟩ := hnames name List.mem_cons_self
    obtain ⟨name', hname', hparse⟩ := hid.exists_name
    obtain rfl : name' = name := Option.some.inj (hname'.symm.trans hname)
    obtain ⟨objects, hevict, Hobjects⟩ := ih (H.drop hid hname)
      fun other hother => hnames other (List.mem_cons_of_mem _ hother)
    refine ⟨objects, ?_, Hobjects⟩
    rw [World.evict, hparse]
    exact hevict

theorem Sound.isWhole_spawn (H : world.Sound) (id x y state : Scalar) :
    (world.spawn id x y state).IsWhole world fun after _ =>
      after.Sound ∧ ∃ object, (id.normalize, object) ∈ after.objects.entries ∧
        object.state = state.normalize := by
  rw [World.spawn]
  cases hplan : world.planSpawn id x y with
  | error fault => rfl
  | ok plan =>
    obtain ⟨columns, rows, hcanvas, hboard⟩ := H.size
    obtain ⟨hid, hnormal, hname, hgrid, htile⟩ := planSpawn_eq_ok hboard hplan
    obtain ⟨id', name, column, row⟩ := plan
    obtain rfl : id.normalize = id' := hnormal
    have Hscrub : ({ world with board := world.board.scrub name } : World).SoundWithout [name] :=
      H.lift name none (by simp)
    obtain ⟨evicted, hevicted⟩ : ∃ evicted,
        (world.board.scrub name).tile? column row = some evicted := by
      obtain ⟨tile, htile⟩ := Option.isSome_iff_exists.mp htile
      exact ⟨_, by rw [Board.tile?_scrub, htile, Option.map_some]⟩
    obtain ⟨objects, hobjects, Hobjects⟩ := (Hscrub.clear hevicted).evict fun name hname => by
      obtain ⟨entry, hentry, htext⟩ := Hscrub.exists_entry hevicted hname
      exact ⟨entry.1, H.keyed.admitted entry hentry, htext⟩
    have Hput := Hobjects.put List.not_mem_nil hid hname hgrid (by simp [hevicted])
      ⟨id.normalize, .int column, .int row, state.normalize⟩ rfl ⟨rfl, rfl⟩
      (Hobjects.keyed.insert Scalar.exact_isId hid _)
      fun entry => Hobjects.keyed.mem_insert Scalar.exact_isId hid
    rw [Board.modifyTile_modifyTile] at Hput
    simp only [hevicted, hobjects]
    exact ⟨Hput, _, (Hobjects.keyed.mem_insert Scalar.exact_isId hid).mpr (.inl rfl), rfl⟩

/-! ## Despawning -/

/-- A checked removal is that of an object whose text is on the given tile. -/
theorem planDespawn_eq_ok (H : world.objects.Keyed Scalar.IsId) {id id' : Scalar}
    {object : TileObject} {name : String} {place : Option (ℕ × ℕ)}
    (h : world.planDespawn id = .ok (id', object, name, place)) :
    id'.IsId ∧ id'.display? = some name ∧ (id', object) ∈ world.objects.entries ∧
      ∀ column row, place = some (column, row) →
        ∃ tile, world.board.tile? column row = some tile ∧ name ∈ tile := by
  rw [planDespawn] at h
  obtain ⟨id, hid, h⟩ := bind_eq_ok_iff.mp h
  have hid := Scalar.isId_of_requireId hid
  cases hget : world.objects.get? id with
  | none => simp only [hget] at h; cases h
  | some record =>
    simp only [hget] at h
    obtain ⟨place', hlocate, h⟩ := bind_eq_ok_iff.mp h
    have hrecord := (H.get?_eq_some_iff Scalar.exact_isId hid).mp hget
    cases place' with
    | none =>
      obtain ⟨text, htext, h⟩ := bind_eq_ok_iff.mp h
      cases h
      exact ⟨hid, Scalar.display?_of_line htext, hrecord, by simp⟩
    | some place' =>
      obtain ⟨column, row⟩ := place'
      obtain ⟨text, htext, h⟩ := bind_eq_ok_iff.mp h
      cases htile : world.board.tile? column row with
      | none => simp only [htile] at h; cases h
      | some tile =>
        simp only [htile] at h
        cases h
        refine ⟨hid, Scalar.display?_of_line htext, hrecord, fun column' row' hplace => ?_⟩
        rw [Option.ite_none_right_eq_some] at hplace
        obtain ⟨hmem, hplace⟩ := hplace
        cases hplace
        exact ⟨tile, htile, List.contains_iff_mem.mp hmem⟩

theorem Sound.isWhole_despawn (H : world.Sound) (id : Scalar) :
    (world.despawn id).IsWhole world fun after object => object.id.Written ∧ after.Sound := by
  rw [World.despawn]
  cases hplan : world.planDespawn id with
  | error fault => rfl
  | ok plan =>
    obtain ⟨id, object, name, place⟩ := plan
    obtain ⟨hid, hname, hrecord, hplace⟩ := planDespawn_eq_ok H.keyed hplan
    refine ⟨?_, (H.lift name place hplace).drop hid hname⟩
    rw [(H.placed _ hrecord).1]
    exact hid.written

/-! ## Moving -/

/-- A direction that a move goes in is known by its name. -/
theorem written_of_targetPosition {object : TileObject} {direction x y : Scalar}
    {target : Scalar × Scalar} (h : targetPosition object direction x y = .ok target)
    (htruthy : direction.truthy = true) : direction.Written := by
  cases direction with
  | int n =>
    rw [targetPosition, if_pos htruthy] at h
    cases h
  | _ => rfl

/-- A checked move is that of an object that is recorded under the id. -/
theorem exists_of_planMove {id direction x y : Scalar} {journey : Journey}
    (h : world.planMove id direction x y = .ok journey) :
    ∃ key object, requireId "move" id = .ok key ∧ world.objects.get? key = some object := by
  obtain ⟨key, hkey, h⟩ := bind_eq_ok_iff.mp h
  cases hget : world.objects.get? key with
  | none => simp only [hget] at h; cases h
  | some object => exact ⟨key, object, hkey, hget⟩

section Standing

variable {key id direction x y : Scalar} {name : String} {object : TileObject} {column row : ℕ}
  {tile : Tile}

theorem Standing.locate_eq (S : world.Standing key name object column row tile) (H : world.Regular)
    (hstart : Scalar.gridTile? (.int column) (.int row) = .ok (some (column, row))) :
    world.board.locate object.x object.y = .ok (some (column, row)) := by
  obtain ⟨columns, rows, hboard⟩ := H.rectangle
  rw [S.place.1, S.place.2, hboard.locate_eq hstart, S.shown]
  rfl

/-- A checked move of an object that stands on a tile goes from there to another tile of the
board. -/
theorem Standing.planMove_eq_ok (S : world.Standing key name object column row tile)
    (H : world.Regular) (hid : requireId "move" id = .ok key) {journey : Journey}
    (h : world.planMove id direction x y = .ok journey) :
    Scalar.gridTile? (.int column) (.int row) = .ok (some (column, row)) ∧
    ∃ (target : Scalar × Scalar) (column' row' : ℕ),
      targetPosition object direction x y = .ok target ∧
      Scalar.gridTile? target.1 target.2 = .ok (some (column', row')) ∧
      (world.board.tile? column' row').isSome = true ∧
      journey = ⟨key, name, object, some (column, row), true, column', row'⟩ := by
  obtain ⟨columns, rows, hboard⟩ := H.rectangle
  have hget := (H.keyed.get?_eq_some_iff Scalar.exact_isId (Scalar.isId_of_requireId hid)).mpr
    S.recorded
  rw [planMove] at h
  obtain ⟨key', hkey', h⟩ := bind_eq_ok_iff.mp h
  obtain rfl := Except.ok.inj (hid.symm.trans hkey')
  simp only [hget] at h
  obtain ⟨target, htarget, h⟩ := bind_eq_ok_iff.mp h
  obtain ⟨index?, hgrid, h⟩ := bind_eq_ok_iff.mp h
  cases index? with
  | none => cases h
  | some index =>
    obtain ⟨m, n⟩ := index
    cases hindex : world.board.locateIndex? m n with
    | none => simp only [hindex] at h; cases h
    | some place =>
      obtain ⟨column', row'⟩ := place
      obtain ⟨rfl, rfl, hinside⟩ := hboard.locateIndex?_eq_some_iff.mp hindex
      simp only [hindex] at h
      obtain ⟨start?, hstart?, h⟩ := bind_eq_ok_iff.mp h
      obtain ⟨name', hname, h⟩ := bind_eq_ok_iff.mp h
      obtain rfl := Option.some.inj (S.text.symm.trans (Scalar.display?_of_line hname))
      -- The place of the mover has been looked at, so that its integers are not too large.
      obtain ⟨_, hstart, -⟩ := bind_eq_ok_iff.mp hstart?
      rw [S.place.1, S.place.2] at hstart
      obtain rfl := Scalar.gridTile?_int_eq_ok hstart
      obtain rfl := Except.ok.inj ((S.locate_eq H hstart).symm.trans hstart?)
      simp only [S.shown, List.contains_iff_mem.mpr S.mem] at h
      exact ⟨hstart, target, column', row', htarget, hgrid, hinside, (Except.ok.inj h).symm⟩

/-- The checks of a move pass if its target is a tile of the board. -/
theorem Standing.planMove_of_target (S : world.Standing key name object column row tile)
    (H : world.Regular) (hid : requireId "move" id = .ok key)
    (hstart : Scalar.gridTile? (.int column) (.int row) = .ok (some (column, row)))
    {target : Scalar × Scalar} {column' row' : ℕ}
    (htarget : targetPosition object direction x y = .ok target)
    (hgrid : Scalar.gridTile? target.1 target.2 = .ok (some (column', row')))
    (hinside : (world.board.tile? column' row').isSome = true) :
    world.planMove id direction x y =
      .ok ⟨key, name, object, some (column, row), true, column', row'⟩ := by
  obtain ⟨columns, rows, hboard⟩ := H.rectangle
  have hget := (H.keyed.get?_eq_some_iff Scalar.exact_isId (Scalar.isId_of_requireId hid)).mpr
    S.recorded
  have hindex := hboard.locateIndex?_eq_some_iff.mpr ⟨rfl, rfl, hinside⟩
  refine bind_eq_ok hid ?_
  simp only [hget]
  refine bind_eq_ok htarget (bind_eq_ok hgrid ?_)
  simp only [hindex]
  refine bind_eq_ok (S.locate_eq H hstart) (bind_eq_ok (Scalar.line_of_display? S.text) ?_)
  simp only [S.shown, List.contains_iff_mem.mpr S.mem]
  rfl

end Standing

/-- A checked move is that of an object on the board, whose text is where it is recorded, to a tile
of the board. -/
structure Journey.Fits (world : World) (journey : Journey) : Prop where
  text : journey.id.display? = some journey.name
  recorded : (journey.id, journey.object) ∈ world.objects.entries
  addressed : Scalar.gridTile? (.int journey.column) (.int journey.row) =
    .ok (some (journey.column, journey.row))
  inside : (world.board.tile? journey.column journey.row).isSome = true
  start : ∃ column row tile, journey.start? = some (column, row) ∧ journey.present = true ∧
    journey.object.StandsAt column row ∧ world.board.tile? column row = some tile ∧
    journey.name ∈ tile

theorem Sound.planMove_eq_ok (H : world.Sound) {id direction x y : Scalar} {journey : Journey}
    (h : world.planMove id direction x y = .ok journey) :
    journey.Fits world ∧ id.normalize = journey.id ∧ id.Written ∧
      (direction.truthy = true → direction.Written) := by
  obtain ⟨key, object, hid, hget⟩ := exists_of_planMove h
  have hkey := Scalar.isId_of_requireId hid
  have hobject := (H.keyed.get?_eq_some_iff Scalar.exact_isId hkey).mp hget
  obtain ⟨name, column, row, tile, S⟩ := H.consistent.exists_standing hobject
  obtain ⟨-, target, column', row', htarget, hgrid, hinside, rfl⟩ :=
    S.planMove_eq_ok H.consistent.regular hid h
  exact ⟨⟨S.text, S.recorded, Scalar.gridTile?_int hgrid, hinside,
    column, row, tile, rfl, rfl, S.place, S.shown, S.mem⟩,
    (Scalar.requireId_eq_ok_iff.mp hid).2, Scalar.written_of_requireId hid,
    written_of_targetPosition htarget⟩

/-- Carrying absent texts to a tile one after the other. -/
theorem SoundWithout.displace {names : List String} (H : world.SoundWithout (names ++ absent))
    (hnodup : (names ++ absent).Nodup)
    (hlive : ∀ name ∈ names, ∃ key ∈ world.objects.keys, key.display? = some name)
    {column row : ℕ} (hgrid : Scalar.gridTile? (.int column) (.int row) = .ok (some (column, row)))
    (htile : (world.board.tile? column row).isSome = true) :
    ∃ board objects,
      displace world.board world.objects (column, row) (.int column) (.int row) names =
        (board, objects, .ok ()) ∧
      ({ world with board, objects } : World).SoundWithout absent ∧
      objects.keys = world.objects.keys := by
  induction names generalizing world with
  | nil => exact ⟨world.board, world.objects, rfl, H, rfl⟩
  | cons name names ih =>
    obtain ⟨id, hkey, hname⟩ := hlive name List.mem_cons_self
    obtain ⟨object, hobject⟩ := Table.mem_keys.mp hkey
    have hid := H.keyed.admitted _ hobject
    obtain ⟨name', hname', hparse⟩ := hid.exists_name
    obtain rfl : name' = name := Option.some.inj (hname'.symm.trans hname)
    obtain ⟨hnot, hnodup⟩ := List.nodup_cons.mp hnodup
    have Hcarry := H.carry hnot hobject hname hgrid htile
      (fun other => { other with x := .int column, y := .int row }) rfl ⟨rfl, rfl⟩
    have hkeys := H.keyed.keys_modify Scalar.exact_isId hid
      fun other => { other with x := .int column, y := .int row }
    obtain ⟨board, objects, hdisplace, Hdisplace, hkeys'⟩ := ih Hcarry hnodup
      (fun other hother => hkeys ▸ hlive other (List.mem_cons_of_mem _ hother))
      (by simpa using htile)
    refine ⟨board, objects, ?_, Hdisplace, hkeys'.trans hkeys⟩
    rw [World.displace, hparse]
    exact hdisplace

/-- Putting the mover down ends a move. -/
theorem SoundWithout.settle {journey : Journey} (H : world.SoundWithout [journey.name])
    (hkey : journey.id ∈ world.objects.keys) (htext : journey.id.display? = some journey.name)
    (hgrid : Scalar.gridTile? (.int journey.column) (.int journey.row) =
      .ok (some (journey.column, journey.row)))
    (htile : (world.board.tile? journey.column journey.row).isSome = true) (state : Scalar) :
    (world.settle journey state).Sound ∧
      ∃ object, (journey.id, object) ∈ (world.settle journey state).objects.entries ∧
        (state ≠ .null → object.state = state.normalize) := by
  obtain ⟨object, hobject⟩ := Table.mem_keys.mp hkey
  refine ⟨H.carry List.not_mem_nil hobject htext hgrid htile _ rfl ⟨rfl, rfl⟩, _,
    (H.keyed.mem_modify Scalar.exact_isId (H.keyed.admitted _ hobject) hobject).mpr (.inl rfl),
    fun hstate => if_neg hstate⟩

theorem Sound.isWhole_move (H : world.Sound) (id direction x y state swap : Scalar) :
    (world.move id direction x y state swap).IsWhole world fun after moved =>
      (id.Written ∧ (direction.truthy = true → direction.Written) ∧
        (Scalar.int moved.newX).Written ∧ (Scalar.int moved.newY).Written) ∧
      after.Sound ∧ ∃ object, (id.normalize, object) ∈ after.objects.entries ∧
        (state ≠ .null → object.state = state.normalize) := by
  rw [World.move]
  cases hplan : world.planMove id direction x y with
  | error fault => rfl
  | ok journey =>
    obtain ⟨⟨htext, hrecord, hgrid, hinside, column, row, tile, hstart, hpresent, hplace, htile,
      hmem⟩, hnormal, hid, hdirection⟩ := H.planMove_eq_ok hplan
    have hwritten := Scalar.written_of_gridTile? hgrid
    rw [hnormal]
    obtain ⟨-, column', row', hplace', hgrid', hinside'⟩ := H.placed _ hrecord
    obtain ⟨rfl, rfl⟩ := hplace.unique hplace'
    have hkey : journey.id ∈ world.objects.keys := Table.mem_keys.mpr ⟨_, hrecord⟩
    have Hlift := H.lift journey.name (some (column, row)) fun _ _ heq => by
      cases heq
      exact ⟨tile, htile, hmem⟩
    obtain ⟨target, htarget⟩ : ∃ target,
        (World.lift world.board journey.name (some (column, row))).tile? journey.column
          journey.row = some target :=
      Option.isSome_iff_exists.mp (by simpa [World.lift] using hinside)
    simp only [hstart, hpresent, if_true, htarget]
    split
    · -- The texts of the new tile come to the old one before the mover is put down.
      have hnodup : (target ++ [journey.name]).Nodup := by
        refine List.nodup_append.mpr ⟨Hlift.nodup _ _ _ htarget, List.nodup_singleton _, ?_⟩
        rintro name hname _ hname' rfl
        exact ((Hlift.shown _ _ _ htarget name).mp hname).1 hname'
      obtain ⟨board, objects, hdisplace, Hdisplace, hkeys⟩ := (Hlift.clear htarget).displace hnodup
        (fun name hname => by
          obtain ⟨entry, hentry, hname⟩ := Hlift.exists_entry htarget hname
          exact ⟨entry.1, Table.mem_keys.mpr ⟨entry.2, hentry⟩, hname⟩)
        hgrid' (by simpa [World.lift] using hinside')
      have htile' := (H.isSome_tile?_iff_of_canvas_eq Hdisplace rfl _ _).mpr hinside
      simp only at hdisplace
      simp only [hplace.1, hplace.2, hdisplace]
      exact ⟨⟨hid, hdirection, hwritten⟩,
        Hdisplace.settle (hkeys ▸ hkey) htext hgrid htile' state⟩
    · exact ⟨⟨hid, hdirection, hwritten⟩,
        Hlift.settle hkey htext hgrid (by simp [htarget]) state⟩

/-! ## Any number of changes -/

/-- A change of a world with its arguments. -/
inductive Edit where
  | resize (width height : Scalar)
  | spawn (id x y state : Scalar)
  | despawn (id : Scalar)
  | move (id direction x y state swap : Scalar)

/-- The world after an attempted change, whether it succeeded or not. -/
def edit (world : World) : Edit → World
  | .resize width height => (world.resize width height).1
  | .spawn id x y state => (world.spawn id x y state).1
  | .despawn id => (world.despawn id).1
  | .move id direction x y state swap => (world.move id direction x y state swap).1

/-- A change leaves the variables and the bound keys alone. -/
theorem bindings_edit (world : World) (edit : Edit) :
    (world.edit edit).vars = world.vars ∧ (world.edit edit).assignments = world.assignments := by
  cases edit with
  | resize width height =>
    rw [World.edit, World.resize]
    split <;> exact ⟨rfl, rfl⟩
  | spawn id x y state =>
    rw [World.edit, World.spawn]
    split
    · exact ⟨rfl, rfl⟩
    · dsimp only
      repeat' split
      all_goals exact ⟨rfl, rfl⟩
  | despawn id =>
    rw [World.edit, World.despawn]
    split <;> exact ⟨rfl, rfl⟩
  | move id direction x y state swap =>
    rw [World.edit, World.move]
    dsimp only
    repeat' split
    all_goals exact ⟨rfl, rfl⟩

/-- A change keeps the size of the canvas, or it gives the canvas a size that it has checked. -/
theorem canvas_edit (world : World) (edit : Edit) :
    (world.edit edit).canvas = world.canvas ∨ ∃ width height, ∃ columns rows : ℕ,
      planResize width height = .ok (columns, rows) ∧
      (world.edit edit).canvas = ⟨some (.int columns), some (.int rows)⟩ := by
  cases edit with
  | resize width height =>
    rw [World.edit, World.resize]
    cases hplan : planResize width height with
    | error fault => exact .inl rfl
    | ok size => exact .inr ⟨width, height, size.1, size.2, hplan, rfl⟩
  | spawn id x y state =>
    rw [World.edit, World.spawn]
    split
    · exact .inl rfl
    · dsimp only
      repeat' split
      all_goals exact .inl rfl
  | despawn id =>
    rw [World.edit, World.despawn]
    split <;> exact .inl rfl
  | move id direction x y state swap =>
    rw [World.edit, World.move]
    dsimp only
    repeat' split
    all_goals exact .inl rfl

theorem Sound.edit (H : world.Sound) (edit : Edit) : (world.edit edit).Sound := by
  cases edit with
  | resize width height => exact (H.isWhole_resize width height).sound H fun _ _ h => h.2
  | spawn id x y state => exact (H.isWhole_spawn id x y state).sound H fun _ _ h => h.1
  | despawn id => exact (H.isWhole_despawn id).sound H fun _ _ h => h.2
  | move id direction x y state swap =>
    exact (H.isWhole_move id direction x y state swap).sound H fun _ _ h => h.2.1

theorem Sound.edits (H : world.Sound) (edits : List Edit) :
    (edits.foldl World.edit world).Sound := by
  induction edits generalizing world with
  | nil => exact H
  | cons edit edits ih => exact ih (H.edit edit)

end World

end TileScript
