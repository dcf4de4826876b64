import TileScript.Proofs.World.Moving

/-!
# Tiles with more than one object

A tile may hold several objects, but only because an object was moved on top of another. To see
this, count on a board the texts that stand on top of others. Spawning clears a tile before it is
taken; a smaller board and a removed object leave fewer texts to count; and a swap brings texts only
to the tile that the mover leaves, where there is one text less. What is left is a move without a
swap, and the first one that matters puts a second object on a tile that held one.

## Main definitions

* `Board.piled`: the number of texts that stand on top of others.
* `World.Unstacked`: no tile holds two texts.
* `World.Edit.unswapped`: the change is a move without a swap.
* `World.Stacks`: the change is one that brings an object to the tile of another.

## Main statements

* `World.Sound.piled_edit_le`: all other changes do not raise the number.
* `World.Sound.stacks_of_edit`: a move without a swap makes the first tile with two texts.
* `World.one_object_per_tile`: tiles hold one object each as long as all moves are swaps.
-/

namespace TileScript

/-! ## Counting -/

namespace Board

variable {board other : Board} {column row : ℕ} {tile : Tile}

/-- The number of texts that stand on top of others. -/
def piled (board : Board) : ℕ := (board.flatten.map fun tile => tile.length - 1).sum

theorem piled_eq_zero_iff : board.piled = 0 ↔ ∀ tile ∈ board.flatten, tile.length ≤ 1 := by
  simp only [piled, List.sum_eq_zero_iff_forall_eq_nat, List.forall_mem_map,
    Nat.sub_eq_zero_iff_le]

/-- Two changes of one tile differ by what they make of it. -/
theorem piled_modifyTile_add (htile : board.tile? column row = some tile)
    (change change' : Tile → Tile) :
    (board.modifyTile column row change).piled + ((change' tile).length - 1) =
      (board.modifyTile column row change').piled + ((change tile).length - 1) := by
  obtain ⟨tiles, htiles, htile⟩ := tile?_eq_some_iff.mp htile
  obtain ⟨hrow, rfl⟩ := List.getElem?_eq_some_iff.mp htiles
  obtain ⟨hcolumn, rfl⟩ := List.getElem?_eq_some_iff.mp htile
  simp only [piled, modifyTile, List.modify_eq_take_cons_drop hrow,
    List.modify_eq_take_cons_drop hcolumn, List.flatten_append, List.flatten_cons,
    List.map_append, List.map_cons, List.sum_append, List.sum_cons]
  omega

/-- Only the changed tile counts differently. -/
theorem piled_modifyTile (htile : board.tile? column row = some tile) (change : Tile → Tile) :
    (board.modifyTile column row change).piled + (tile.length - 1) =
      board.piled + ((change tile).length - 1) := by
  have h := piled_modifyTile_add htile change id
  rwa [modifyTile_id] at h

/-- A sum is at most another one if its terms are, as far as they count. -/
theorem sum_map_le_sum_map {α : Type} {weight : α → ℕ} {l l' : List α}
    (h : ∀ (i : ℕ) (a : α), l[i]? = some a → 0 < weight a →
      ∃ b, l'[i]? = some b ∧ weight a ≤ weight b) :
    (l.map weight).sum ≤ (l'.map weight).sum := by
  induction l generalizing l' with
  | nil => simp
  | cons a l ih =>
    have hrest : (l.map weight).sum ≤ (l'.tail.map weight).sum := by
      apply ih
      intro i b hb hpos
      simpa using h (i + 1) b hb hpos
    cases l' with
    | nil =>
      have hfirst : weight a = 0 := by
        by_contra hne
        obtain ⟨b, hb, -⟩ := h 0 a rfl (Nat.pos_of_ne_zero hne)
        cases hb
      simpa [hfirst] using hrest
    | cons b l' =>
      have hfirst : weight a ≤ weight b := by
        by_contra hlt
        obtain ⟨_, hb, hle⟩ := h 0 a rfl (by omega)
        obtain rfl := Option.some.inj hb
        exact hlt hle
      simpa using Nat.add_le_add hfirst hrest

/-- A board has at most as many texts on top of others as one whose tiles are as high, wherever
there is such a text. -/
theorem piled_le (h : ∀ column row tile, board.tile? column row = some tile → 1 < tile.length →
      ∃ tile', other.tile? column row = some tile' ∧ tile.length ≤ tile'.length) :
    board.piled ≤ other.piled := by
  have hrows : ∀ board : Board, board.piled =
      (board.map fun tiles => (tiles.map fun tile => tile.length - 1).sum).sum := by
    intro board
    rw [piled, List.map_flatten, List.sum_flatten, List.map_map]
    rfl
  rw [hrows, hrows]
  apply sum_map_le_sum_map
  intro row tiles htiles hpos
  have hrow : ∀ column tile, tiles[column]? = some tile → 0 < tile.length - 1 →
      ∃ tile', other.tile? column row = some tile' ∧ tile.length ≤ tile'.length := by
    intro column tile htile hpos
    exact h column row tile (tile?_eq_some_iff.mpr ⟨tiles, htiles, htile⟩) (by omega)
  -- The other board has the row, as it has a tile in it.
  obtain ⟨_, hcount, hpos⟩ := List.sum_pos_iff_exists_pos_nat.mp hpos
  obtain ⟨tile, htile, rfl⟩ := List.mem_map.mp hcount
  obtain ⟨column, hcolumn⟩ := List.getElem?_of_mem htile
  obtain ⟨_, hother, -⟩ := hrow column tile hcolumn hpos
  obtain ⟨tiles', htiles', -⟩ := tile?_eq_some_iff.mp hother
  refine ⟨tiles', htiles', ?_⟩
  apply sum_map_le_sum_map
  intro column tile htile hpos
  obtain ⟨tile', hother, hle⟩ := hrow column tile htile hpos
  obtain ⟨tiles, hrow', htile'⟩ := tile?_eq_some_iff.mp hother
  obtain rfl := Option.some.inj (htiles'.symm.trans hrow')
  exact ⟨tile', htile', by omega⟩

section Moves

variable {name : String} {column' row' : ℕ}

theorem length_filter_add_one (hnodup : tile.Nodup) (hname : name ∈ tile) :
    (tile.filter (· != name)).length + 1 = tile.length := by
  rw [← hnodup.erase_eq_filter name, List.length_erase_add_one hname]

/-- Where no tile holds two texts, a text that is carried can only make a pair with the one text
that it meets. -/
theorem Carried.exists_pair (h : board.Carried other name column row column' row')
    (hboard : ∀ tile ∈ board.flatten, tile.length ≤ 1)
    (hother : ¬∀ tile ∈ other.flatten, tile.length ≤ 1) :
    ∃ text, other.tile? column' row' = some [text, name] := by
  obtain ⟨pair, hpair⟩ := not_forall.mp hother
  obtain ⟨hmem, hlength⟩ := Classical.not_imp.mp hpair
  obtain ⟨c, r, hafter⟩ := mem_tiles_iff.mp hmem
  have hmade := hafter
  rw [h c r, Option.map_eq_some_iff] at hmade
  obtain ⟨old, hold, rfl⟩ := hmade
  have hone := hboard old (mem_tiles_iff.mpr ⟨c, r, hold⟩)
  set left := if c = column ∧ r = row then old.filter (· != name) else old with hleft
  have hfewer : left.length ≤ old.length := by
    rw [hleft]
    split
    · exact List.length_filter_le _ _
    · exact le_refl _
  by_cases hend : c = column' ∧ r = row'
  · rw [if_pos hend, List.length_append, List.length_singleton] at hlength
    rw [if_pos hend, hend.1, hend.2] at hafter
    obtain ⟨text, htext⟩ := List.length_eq_one_iff.mp (by omega : left.length = 1)
    rw [htext] at hafter
    exact ⟨text, hafter⟩
  · rw [if_neg hend, List.append_nil] at hlength
    omega

variable (hnodup : tile.Nodup) (hname : name ∈ tile)
  (htile : board.tile? column row = some tile)
include hnodup hname htile

/-- A text that is put down in its place stands on as many others as before. -/
theorem Carried.piled_le (h : board.Carried other name column row column row) :
    other.piled ≤ board.piled := by
  apply Board.piled_le
  intro c r tile' htile' _
  rw [h c r, Option.map_eq_some_iff] at htile'
  obtain ⟨old, hold, rfl⟩ := htile'
  refine ⟨old, hold, ?_⟩
  by_cases hplace : c = column ∧ r = row
  · obtain ⟨rfl, rfl⟩ := hplace
    obtain rfl := Option.some.inj (htile.symm.trans hold)
    simp [length_filter_add_one hnodup hname]
  · simp [hplace]

/-- A swap brings to the old tile what it takes off the new one, and the mover is gone there. -/
theorem Swapped.piled_le {target : Tile} (htarget : board.tile? column' row' = some target)
    (hother : ¬(column' = column ∧ row' = row))
    (hshape : other.map List.length = board.map List.length)
    (h : board.Swapped other name column row column' row' target) :
    other.piled ≤ board.piled := by
  set left := board.modifyTile column row (·.filter (· != name) ++ target) with hleft
  have htarget' : left.tile? column' row' = some target := by
    rw [hleft, tile?_modifyTile, if_neg hother, htarget]
  have heq : other = left.modifyTile column' row' fun _ => [name] := by
    apply ext_tile?
    · simp [hshape, hleft]
    · intro c r
      rw [h c r, tile?_modifyTile, hleft, tile?_modifyTile]
      by_cases hend : c = column' ∧ r = row'
      · obtain ⟨rfl, rfl⟩ := hend
        simp [hother]
      · by_cases hstart : c = column ∧ r = row
        · obtain ⟨rfl, rfl⟩ := hstart
          simp [hend]
        · simp [hend, hstart]
  -- The old tile loses a text before it gets those of the new one, which is left with a single
  -- text.
  have hstart := piled_modifyTile htile (·.filter (· != name) ++ target)
  have hend := piled_modifyTile htarget' fun _ => [name]
  have hlength := length_filter_add_one hnodup hname
  simp only [List.length_append, List.length_singleton, ← hleft, ← heq] at hstart hend
  omega

end Moves

end Board

namespace World

variable {world : World}

/-! ## One change -/

/-- No tile holds two texts. -/
def Unstacked (world : World) : Prop := ∀ tile ∈ world.board.flatten, tile.length ≤ 1

/-- The change is a move without a swap. -/
def Edit.unswapped : Edit → Bool
  | .move _ _ _ _ _ swap => !swap.truthy
  | _ => false

/-- The change is a move without a swap that succeeds, and it brings the mover to a tile on which
there is one other text. -/
def Stacks (world : World) (change : Edit) : Prop :=
  ∃ id direction x y state swap after moved name other,
    change = .move id direction x y state swap ∧ swap.truthy = false ∧
    world.move id direction x y state swap = (after, .ok moved) ∧
    id.normalize.display? = some name ∧ other ≠ name ∧
    after.board.tile? moved.newX moved.newY = some [other, name]

theorem kept_restack_sublist (board : Board) (entries : List (Scalar × TileObject)) :
    (restack board entries).kept.Sublist entries := by
  fun_induction restack board entries with
  | case1 => exact .slnil
  | case2 => exact List.Sublist.refl _
  | case3 => exact List.Sublist.refl _
  | case4 => exact List.sublist_cons_self _ _
  | case5 _ _ _ _ _ _ _ _ _ after ih => exact ih.cons_cons _
  | case6 _ _ _ _ _ _ _ after ih => exact ih.cons _

/-- Resizing records no new object. -/
theorem entries_resize_sublist (world : World) (width height : Scalar) :
    (world.resize width height).1.objects.entries.Sublist world.objects.entries := by
  rw [World.resize]
  split
  · exact List.Sublist.refl _
  · exact kept_restack_sublist _ _

/-- Despawning records no new object. -/
theorem entries_despawn_sublist (world : World) (id : Scalar) :
    (world.despawn id).1.objects.entries.Sublist world.objects.entries := by
  rw [World.despawn]
  split
  · exact List.Sublist.refl _
  · exact List.eraseP_sublist

namespace Sound

/-- A world with fewer records, all of them from another world, has fewer texts to count. -/
theorem piled_le_of_sublist {after : World} (H : world.Sound) (H' : after.Sound)
    (h : after.objects.entries.Sublist world.objects.entries) :
    after.board.piled ≤ world.board.piled := by
  apply Board.piled_le
  intro column row tile htile hlength
  -- Every text of the tile is that of an object that was recorded there.
  have hoccupied : ∀ name ∈ tile, ∃ tile', world.board.tile? column row = some tile' ∧
      name ∈ tile' := by
    intro name hname
    obtain ⟨-, entry, hentry, htext, hplace⟩ := (H'.shown _ _ _ htile name).mp hname
    obtain ⟨-, column', row', hplace', -, hinside⟩ := H.placed entry (h.subset hentry)
    obtain ⟨rfl, rfl⟩ := hplace.unique hplace'
    obtain ⟨tile', htile'⟩ := Option.isSome_iff_exists.mp hinside
    exact ⟨tile', htile', H.mem_tile (h.subset hentry) htext hplace htile'⟩
  obtain ⟨name, hname⟩ := List.exists_mem_of_length_pos (by omega : 0 < tile.length)
  obtain ⟨tile', htile', -⟩ := hoccupied name hname
  refine ⟨tile', htile', (H'.nodup _ _ _ htile).length_le_of_subset ?_⟩
  intro other hother
  obtain ⟨tile'', htile'', hmem⟩ := hoccupied other hother
  rwa [Option.some.inj (htile'.symm.trans htile'')]

theorem piled_spawn_le (H : world.Sound) (id x y state : Scalar) :
    (world.spawn id x y state).1.board.piled ≤ world.board.piled := by
  cases hplan : world.planSpawn id x y with
  | error fault => rw [World.spawn, hplan]
  | ok plan =>
    obtain ⟨after, evicted, hspawn, S⟩ := H.consistent.regular.exists_spawned hplan state
    rw [hspawn]
    apply Board.piled_le
    intro column row tile htile hlength
    by_cases hplace : column = plan.column ∧ row = plan.row
    · rw [hplace.1, hplace.2, S.alone] at htile
      obtain rfl := Option.some.inj htile
      simp at hlength
    · rw [S.elsewhere _ _ hplace, Option.map_eq_some_iff] at htile
      obtain ⟨old, hold, rfl⟩ := htile
      exact ⟨old, hold, List.length_filter_le _ _⟩

/-- A move succeeds or leaves the world as it was. -/
theorem move_eq_or (H : world.Sound) (id direction x y state swap : Scalar) :
    (world.move id direction x y state swap).1 = world ∨
      ∃ after moved, world.move id direction x y state swap = (after, .ok moved) := by
  have hwhole := H.isWhole_move id direction x y state swap
  generalize world.move id direction x y state swap = outcome at hwhole ⊢
  obtain ⟨after, result⟩ := outcome
  cases result with
  | error fault => exact .inl hwhole
  | ok moved => exact .inr ⟨after, moved, rfl⟩

theorem piled_swap_le (H : world.Sound) (id direction x y state : Scalar) {swap : Scalar}
    (hswap : swap.truthy = true) :
    (world.move id direction x y state swap).1.board.piled ≤ world.board.piled := by
  rcases H.move_eq_or id direction x y state swap with hsame | ⟨after, moved, hmove⟩
  · rw [hsame]
  · obtain ⟨-, name, object, column, row, tile, S, -, -, R⟩ := H.consistent.exists_relocated hmove
    have hnodup := H.nodup _ _ _ S.shown
    rw [hmove]
    by_cases hplace : moved.newX = column ∧ moved.newY = row
    · obtain ⟨-, hcarried⟩ := R.carried (.inr hplace)
      rw [hplace.1, hplace.2] at hcarried
      exact hcarried.piled_le hnodup S.mem S.shown
    · obtain ⟨htarget, hswapped⟩ := R.swapped hswap hplace
      exact hswapped.piled_le hnodup S.mem S.shown htarget hplace R.shape

/-- Only a move without a swap puts more texts on top of others. -/
theorem piled_edit_le (H : world.Sound) {change : Edit} (h : change.unswapped = false) :
    (world.edit change).board.piled ≤ world.board.piled := by
  have H' := H.edit change
  cases change with
  | resize width height => exact H.piled_le_of_sublist H' (entries_resize_sublist _ _ _)
  | spawn id x y state => exact H.piled_spawn_le id x y state
  | despawn id => exact H.piled_le_of_sublist H' (entries_despawn_sublist _ _)
  | move id direction x y state swap =>
    exact H.piled_swap_le id direction x y state (by simpa [Edit.unswapped] using h)

theorem unstacked_edit (H : world.Sound) (hworld : world.Unstacked) {change : Edit}
    (h : change.unswapped = false) : (world.edit change).Unstacked := by
  have hzero := Board.piled_eq_zero_iff.mpr hworld
  have hle := H.piled_edit_le h
  exact Board.piled_eq_zero_iff.mp (by omega)

/-- The first tile with two texts comes from a move without a swap. -/
theorem stacks_of_edit (H : world.Sound) (hworld : world.Unstacked) {change : Edit}
    (h : ¬(world.edit change).Unstacked) : world.Stacks change := by
  have hunswapped : change.unswapped = true := by
    by_contra hne
    exact h (H.unstacked_edit hworld (by simpa using hne))
  cases change with
  | move id direction x y state swap =>
    have hswap : swap.truthy = false := by simpa [Edit.unswapped] using hunswapped
    rw [World.edit] at h
    rcases H.move_eq_or id direction x y state swap with hsame | ⟨after, moved, hmove⟩
    · rw [hsame] at h
      exact absurd hworld h
    · obtain ⟨-, name, object, column, row, tile, S, -, -, R⟩ :=
        H.consistent.exists_relocated hmove
      rw [hmove] at h
      obtain ⟨-, hcarried⟩ := R.carried (.inl hswap)
      obtain ⟨other, hpair⟩ := hcarried.exists_pair hworld h
      have hnodup := R.texts.nodup_iff.mpr H.consistent.nodup
      have hne : other ≠ name := by simpa using Board.nodup_tile hnodup hpair
      exact ⟨id, direction, x, y, state, swap, after, moved, name, other, rfl, hswap, hmove,
        S.text, hne, hpair⟩
  | _ => cases hunswapped

/-! ## Any number of changes -/

theorem unstacked_edits (H : world.Sound) (hworld : world.Unstacked) {edits : List Edit}
    (h : ∀ change ∈ edits, change.unswapped = false) :
    (edits.foldl World.edit world).Unstacked := by
  induction edits generalizing world with
  | nil => exact hworld
  | cons change edits ih =>
    obtain ⟨hchange, hrest⟩ := List.forall_mem_cons.mp h
    exact ih (H.edit change) (H.unstacked_edit hworld hchange) hrest

/-- A run after which a tile holds two texts has a change that puts the first two on one. -/
theorem exists_stacks (H : world.Sound) (hworld : world.Unstacked) {edits : List Edit}
    (h : ¬(edits.foldl World.edit world).Unstacked) :
    ∃ before change rest, edits = before ++ change :: rest ∧
      (before.foldl World.edit world).Unstacked ∧
      (before.foldl World.edit world).Stacks change := by
  induction edits generalizing world with
  | nil => exact absurd hworld h
  | cons change edits ih =>
    by_cases hnext : (world.edit change).Unstacked
    · obtain ⟨before, change', rest, rfl, hbefore, hstacks⟩ := ih (H.edit change) hnext h
      exact ⟨change :: before, change', rest, rfl, hbefore, hstacks⟩
    · exact ⟨[], change, edits, rfl, hworld, H.stacks_of_edit hworld hnext⟩

end Sound

theorem unstacked_empty : empty.Unstacked := by simp [Unstacked, empty]

/-- **Tiles hold one object each as long as all moves are swaps.** Let changes with any values be
made one after the other, starting from the empty world, whether they succeed or fail. If no move
is made without a swap then no tile holds two texts in the end. If some tile does, then the first
two texts on one tile were put there by a move without a swap. And whatever came before, no other
change raises the number of texts that stand on top of others.

The last part is about where texts on top of others come from, and not about which of them share a
tile. In a world where a tile already holds several, a swap may leave them on a tile that held one,
as in `move_exact_crowded`, and it may bring together texts that had not shared a tile: those of the
target come to those that the moved object leaves behind. -/
theorem one_object_per_tile (edits : List Edit) :
    ((∀ change ∈ edits, change.unswapped = false) → (edits.foldl edit empty).Unstacked) ∧
    (¬(edits.foldl edit empty).Unstacked →
      ∃ before change rest, edits = before ++ change :: rest ∧
        (before.foldl edit empty).Unstacked ∧ (before.foldl edit empty).Stacks change) ∧
    ∀ change : Edit, change.unswapped = false →
      ((edits.foldl edit empty).edit change).board.piled ≤ (edits.foldl edit empty).board.piled :=
  ⟨sound_empty.unstacked_edits unstacked_empty, sound_empty.exists_stacks unstacked_empty,
    fun _ => (sound_empty.edits edits).piled_edit_le⟩

/-- Two objects change places, a third one fails to come and then takes the tile of one of them,
and the last column goes. -/
def shuffleEdits : List Edit :=
  [.resize (.int 3) (.int 1), .spawn (.int 1) (.int 0) (.int 0) .null,
    .spawn (.int 2) (.int 1) (.int 0) .null,
    .move (.int 1) "right" .null .null .null (.bool true),
    .spawn (.int 3) (.int 3) (.int 0) .null, .spawn (.int 3) (.int 1) (.int 0) .null,
    .resize (.int 2) (.int 1)]

/-- The same changes, and then the third object is moved to the tile of the second. -/
def stackEdits : List Edit :=
  shuffleEdits ++ [.move (.int 3) "left" .null .null .null (.bool false)]

theorem one_object_per_tile_shuffle :
    (shuffleEdits.foldl edit empty).board = [[["2"], ["3"]]] ∧
    (shuffleEdits.foldl edit empty).Unstacked ∧
    (stackEdits.foldl edit empty).board = [[["2", "3"], []]] ∧
    ∃ before change rest, stackEdits = before ++ change :: rest ∧
      (before.foldl edit empty).Unstacked ∧ (before.foldl edit empty).Stacks change := by
  have hswaps : ∀ change ∈ shuffleEdits, change.unswapped = false := by decide
  have hboard : (shuffleEdits.foldl edit empty).board = [[["2"], ["3"]]] := by decide +kernel
  have hstack : (stackEdits.foldl edit empty).board = [[["2", "3"], []]] := by decide +kernel
  have hnot : ¬(stackEdits.foldl edit empty).Unstacked := by
    rw [Unstacked, hstack]
    decide
  exact ⟨hboard, (one_object_per_tile shuffleEdits).1 hswaps, hstack,
    (one_object_per_tile stackEdits).2.1 hnot⟩

end World

end TileScript
