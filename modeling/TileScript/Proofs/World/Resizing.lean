import Mathlib.Data.List.Perm.Basic
import TileScript.Proofs.World.Failures

/-!
# What resizing does

Resizing keeps the objects whose places lie in the new size, with their records and in their order,
and drops the others. Every tile is stacked anew: the texts on it come in the order of the records,
whatever the order was in which the objects had come there.

So a tile after resizing is a matter of the records alone, and what a second size keeps of the first
is what lies in both. A second size inside the first one therefore makes the first one superfluous,
and the same size once more changes nothing.

## Main definitions

* `World.Resized`: what resizing makes of a world.

## Main statements

* `World.Consistent.sound`: the consistent worlds that can be resized are the sound ones.
* `World.Resized.unique`: there is one such world.
* `World.resize_exact`: resizing once, and twice.
-/

namespace TileScript

/-- The rows of a rectangle are all of one length. -/
theorem Board.IsRectangle.map_length {board : Board} {columns rows : ℕ}
    (H : board.IsRectangle columns rows) :
    board.map List.length = List.replicate rows columns := by
  apply List.eq_replicate_iff.mpr
  refine ⟨by rw [List.length_map, H.length_eq], ?_⟩
  intro length hlength
  obtain ⟨tiles, htiles, rfl⟩ := List.mem_map.mp hlength
  exact H.length_row tiles htiles

namespace World

variable {world : World}

/-- A consistent world is sound if its objects stand where the board can be asked for them. -/
theorem Consistent.sound (H : world.Consistent)
    (hfits : ∀ entry ∈ world.objects.entries, entry.2.x.FitsFloat ∧ entry.2.y.FitsFloat) :
    world.Sound where
  size := H.size
  keyed := H.regular.keyed
  placed entry hentry := by
    obtain ⟨name, column, row, tile, S⟩ := H.exists_standing hentry
    obtain ⟨hx, hy⟩ := hfits entry hentry
    rw [S.place.1] at hx
    rw [S.place.2] at hy
    obtain ⟨place?, hgrid⟩ := hx.exists_gridTile? hy
    obtain rfl := Scalar.gridTile?_int_eq_ok hgrid
    exact ⟨(H.ids entry hentry).2, column, row, S.place, hgrid, by rw [S.shown, Option.isSome_some]⟩
  nodup _ _ _ htile := Board.nodup_tile H.nodup htile
  shown column row tile htile name := by
    simp only [List.not_mem_nil, not_false_eq_true, true_and]
    constructor
    · intro hname
      obtain ⟨entry, hentry, htext⟩ :=
        H.live name (Board.mem_flatten_iff.mpr ⟨column, row, tile, htile, hname⟩)
      exact ⟨entry, hentry, htext, H.standsAt_of_mem hentry htext htile hname⟩
    · rintro ⟨entry, hentry, htext, hplace⟩
      obtain ⟨name', column', row', tile', S⟩ := H.exists_standing hentry
      obtain ⟨rfl, rfl⟩ := hplace.unique S.place
      obtain rfl := Option.some.inj (htext.symm.trans S.text)
      obtain rfl := Option.some.inj (htile.symm.trans S.shown)
      exact S.mem

/-! ## Resizing once -/

/-- What resizing makes of a world, and the texts of the objects that it drops. -/
structure Resized (world : World) (columns rows : ℕ) (after : World) (dropped : List String) :
    Prop where
  /-- The canvas has the new size, and else only the board and the records change. -/
  frame : after = { world with
    canvas := ⟨some (.int columns), some (.int rows)⟩
    board := after.board
    objects := after.objects }
  /-- The board has the new size. -/
  shape : after.board.IsRectangle columns rows
  /-- The records of the objects that lie in the new size are kept, in their order. -/
  kept : after.objects.entries =
    world.objects.entries.filter fun entry => isWithin columns rows entry.2
  /-- What is returned is the texts of the others, in their order. -/
  lost : dropped.map some =
    (world.objects.entries.filter fun entry => !isWithin columns rows entry.2).map (·.1.display?)
  /-- A tile holds the texts of the objects that are recorded there, in their order. -/
  tiles : ∀ column row, column < columns → row < rows →
    after.board.tile? column row = some (namesAt world.objects.entries column row)

/-- A checked size is given to a sound world. -/
theorem Sound.exists_resized (H : world.Sound) {width height : Scalar} {columns rows : ℕ}
    (hplan : planResize width height = .ok (columns, rows)) :
    ∃ after dropped, world.resize width height = (after, .ok dropped) ∧
      world.Resized columns rows after dropped ∧ after.Sound := by
  obtain ⟨board, dropped, hrestack, hdropped, hboard, htiles⟩ := H.restack_blank columns rows
  have hresize : world.resize width height =
      ({ world with
          canvas := ⟨some (.int columns), some (.int rows)⟩
          board
          objects := ⟨world.objects.entries.filter fun entry => isWithin columns rows entry.2⟩ },
        .ok dropped) := by
    rw [World.resize, hplan]
    simp only [hrestack]
  have hsound := H.edit (.resize width height)
  rw [World.edit, hresize] at hsound
  refine ⟨_, _, hresize, ?_, hsound⟩
  exact ⟨rfl, hboard, rfl, hdropped, fun column row hcolumn hrow => by
    rw [htiles, if_pos ⟨hcolumn, hrow⟩]⟩

/-! ## Resizing twice -/

/-- An object lies in two sizes if it lies in the smaller width and the smaller height. -/
theorem isWithin_min (columns rows columns' rows' : ℕ) (object : TileObject) :
    isWithin (min columns columns') (min rows rows') object =
      (isWithin columns' rows' object && isWithin columns rows object) := by
  rw [isWithin, isWithin, isWithin]
  split
  · rw [Bool.eq_iff_iff, Bool.and_eq_true, decide_eq_true_eq, decide_eq_true_eq, decide_eq_true_eq]
    omega
  · rfl

/-- What is recorded at a place is kept by every size in which the place lies. -/
theorem namesAt_filter (entries : List (Scalar × TileObject)) {columns rows column row : ℕ}
    (hcolumn : column < columns) (hrow : row < rows) :
    namesAt (entries.filter fun entry => isWithin columns rows entry.2) column row =
      namesAt entries column row := by
  rw [namesAt, namesAt, List.filterMap_filter]
  congr 1
  funext entry
  by_cases hplace : entry.2.StandsAt column row
  · simp [(isWithin_iff hplace).mpr ⟨hcolumn, hrow⟩]
  · simp [hplace]

namespace Resized

variable {first second other : World} {dropped dropped' dropped'' : List String}
  {columns rows columns' rows' : ℕ}

/-- The size determines what resizing makes of a world. -/
theorem unique (R : world.Resized columns rows first dropped)
    (R' : world.Resized columns rows other dropped') : first = other ∧ dropped = dropped' := by
  have hboard : first.board = other.board := by
    apply Board.ext_tile?
    · rw [R.shape.map_length, R'.shape.map_length]
    · intro column row
      by_cases hinside : column < columns ∧ row < rows
      · rw [R.tiles _ _ hinside.1 hinside.2, R'.tiles _ _ hinside.1 hinside.2]
      · have hnone := mt R.shape.isSome_tile?_iff.mp hinside
        have hnone' := mt R'.shape.isSome_tile?_iff.mp hinside
        rw [Option.not_isSome_iff_eq_none.mp hnone, Option.not_isSome_iff_eq_none.mp hnone']
  have hobjects : first.objects = other.objects :=
    congrArg Table.mk (R.kept.trans R'.kept.symm)
  refine ⟨?_, List.map_injective_iff.mpr (Option.some_injective _) (R.lost.trans R'.lost.symm)⟩
  rw [R.frame, R'.frame, hboard, hobjects]

variable (R : world.Resized columns rows first dropped)
  (R' : first.Resized columns' rows' second dropped')
include R R'

/-- Two sizes keep what lies in both. -/
theorem kept_twice : second.objects.entries =
    world.objects.entries.filter fun entry =>
      isWithin (min columns columns') (min rows rows') entry.2 := by
  rw [R'.kept, R.kept, List.filter_filter]
  apply List.filter_congr
  intro entry _
  rw [isWithin_min]

/-- A second size inside the first one does all that there is to do. -/
theorem trans (hcolumns : columns' ≤ columns) (hrows : rows' ≤ rows)
    (R'' : world.Resized columns' rows' other dropped'') : second = other := by
  suffices R : world.Resized columns' rows' second dropped'' from (R.unique R'').1
  constructor
  case frame => rw [R'.frame, R.frame]
  case shape => exact R'.shape
  case kept =>
    rw [kept_twice R R', Nat.min_eq_right hcolumns, Nat.min_eq_right hrows]
  case lost => exact R''.lost
  case tiles =>
    intro column row hcolumn hrow
    rw [R'.tiles column row hcolumn hrow, R.kept, namesAt_filter]
    · exact lt_of_lt_of_le hcolumn hcolumns
    · exact lt_of_lt_of_le hrow hrows

/-- What the second size drops is what the first one kept. -/
theorem lost_twice : dropped'.map some =
    (world.objects.entries.filter fun entry =>
      !isWithin columns' rows' entry.2 && isWithin columns rows entry.2).map (·.1.display?) := by
  rw [R'.lost, R.kept, List.filter_filter]

/-- A second size inside the first one drops what is left to be dropped. -/
theorem perm_lost (hcolumns : columns' ≤ columns) (hrows : rows' ≤ rows)
    (R'' : world.Resized columns' rows' other dropped'') :
    (dropped ++ dropped').Perm dropped'' := by
  -- What lies outside the first size lies outside the second one.
  have houtside : ∀ entry ∈ world.objects.entries,
      (!isWithin columns rows entry.2) =
        (!isWithin columns rows entry.2 && !isWithin columns' rows' entry.2) := by
    intro entry _
    have hmin := isWithin_min columns rows columns' rows' entry.2
    rw [Nat.min_eq_right hcolumns, Nat.min_eq_right hrows] at hmin
    rw [hmin]
    cases isWithin columns rows entry.2 <;> simp
  refine (List.map_perm_map_iff (Option.some_injective _)).mp ?_
  rw [List.map_append, R.lost, lost_twice R R', R''.lost, ← List.map_append]
  refine List.Perm.map _ ?_
  rw [List.filter_congr houtside, ← List.filter_filter]
  have hsplit := List.filter_append_perm (fun entry : Scalar × TileObject =>
    !isWithin columns rows entry.2)
    (world.objects.entries.filter fun entry => !isWithin columns' rows' entry.2)
  simpa [List.filter_filter, Bool.and_comm] using hsplit

end Resized

/-- **What resizing does.** On a consistent world whose objects stand where floating point numbers
reach, let two pairs of values say two positive sizes. Resizing to the first one succeeds: it keeps
the objects that lie in the size, with their records and in their order, returns the others in their
order, and makes each tile the texts of those that are recorded there, in their order. Resizing to
the second one then succeeds in the same way, and what is kept in the end is what lies in both
sizes. If the second size lies inside the first, it alone would have made the same world, and would
have dropped what the two drop together; and if it is the first, it changes nothing more and drops
nothing. -/
theorem resize_exact (H : world.Consistent)
    (hfits : ∀ entry ∈ world.objects.entries, entry.2.x.FitsFloat ∧ entry.2.y.FitsFloat)
    {width height width' height' : Scalar} {columns rows columns' rows' : ℕ}
    (hsize : Scalar.gridTile? width height = .ok (some (columns, rows)))
    (hpos : 0 < columns ∧ 0 < rows)
    (hsize' : Scalar.gridTile? width' height' = .ok (some (columns', rows')))
    (hpos' : 0 < columns' ∧ 0 < rows') :
    ∃ first second dropped dropped',
      world.resize width height = (first, .ok dropped) ∧
      world.Resized columns rows first dropped ∧
      first.resize width' height' = (second, .ok dropped') ∧
      first.Resized columns' rows' second dropped' ∧
      second.objects.entries = (world.objects.entries.filter fun entry =>
        isWithin (min columns columns') (min rows rows') entry.2) ∧
      (columns' ≤ columns → rows' ≤ rows → ∃ dropped'',
        world.resize width' height' = (second, .ok dropped'') ∧
          (dropped ++ dropped').Perm dropped'') ∧
      (columns' = columns → rows' = rows → second = first ∧ dropped' = []) := by
  have hplan := planResize_eq_ok_iff.mpr ⟨hsize, hpos⟩
  have hplan' := planResize_eq_ok_iff.mpr ⟨hsize', hpos'⟩
  have Hworld := H.sound hfits
  obtain ⟨first, dropped, hfirst, R, Hfirst⟩ := Hworld.exists_resized hplan
  obtain ⟨second, dropped', hsecond, R', -⟩ := Hfirst.exists_resized hplan'
  refine ⟨first, second, dropped, dropped', hfirst, R, hsecond, R', R.kept_twice R', ?_, ?_⟩
  · intro hcolumns hrows
    obtain ⟨other, dropped'', hother, R'', -⟩ := Hworld.exists_resized hplan'
    obtain rfl := R.trans R' hcolumns hrows R''
    exact ⟨dropped'', hother, R.perm_lost R' hcolumns hrows R''⟩
  · rintro rfl rfl
    refine ⟨R.trans R' le_rfl le_rfl R, ?_⟩
    have hnone := R.lost_twice R'
    simpa using hnone

/-- Four objects in a row, the first of which has come on top of the second. -/
def queueWorld : World :=
  [Edit.resize (.int 4) (.int 1), .spawn (.int 1) (.int 0) (.int 0) .null,
    .spawn (.int 2) (.int 1) (.int 0) .null, .spawn (.int 3) (.int 2) (.int 0) .null,
    .spawn (.int 4) (.int 3) (.int 0) .null,
    .move (.int 1) "right" .null .null .null (.bool false)].foldl edit .empty

/-- The first object, which has the first record, comes to stand below the second; and the last two
are dropped one after the other. -/
theorem resize_exact_queue : queueWorld.Consistent ∧
    queueWorld.board = [[[], ["2", "1"], ["3"], ["4"]]] ∧
    ∃ first second,
      queueWorld.resize (.int 3) (.int 1) = (first, .ok ["4"]) ∧
      queueWorld.Resized 3 1 first ["4"] ∧ first.board.tile? 1 0 = some ["1", "2"] ∧
      first.resize (.int 2) (.int 1) = (second, .ok ["3"]) ∧
      queueWorld.resize (.int 2) (.int 1) = (second, .ok ["3", "4"]) := by
  have hconsistent : queueWorld.Consistent := (sound_empty.edits _).consistent
  have hfits : ∀ entry ∈ queueWorld.objects.entries,
      entry.2.x.FitsFloat ∧ entry.2.y.FitsFloat := by decide +kernel
  have hsize : Scalar.gridTile? (.int 3) (.int 1) = .ok (some ((3 : ℕ), (1 : ℕ))) := by
    decide +kernel
  have hsize' : Scalar.gridTile? (.int 2) (.int 1) = .ok (some ((2 : ℕ), (1 : ℕ))) := by
    decide +kernel
  obtain ⟨first, second, dropped, dropped', hfirst, R, hsecond, -, -, hinside, -⟩ :=
    resize_exact hconsistent hfits hsize (by decide) hsize' (by decide)
  obtain ⟨dropped'', hsingle, -⟩ := hinside (by decide) (by decide)
  obtain rfl : (queueWorld.resize (.int 3) (.int 1)).1 = first := congrArg Prod.fst hfirst
  have hdropped : (queueWorld.resize (.int 3) (.int 1)).2 = .ok ["4"] := by decide +kernel
  have hdropped' : ((queueWorld.resize (.int 3) (.int 1)).1.resize (.int 2) (.int 1)).2 =
      .ok ["3"] := by decide +kernel
  have hdropped'' : (queueWorld.resize (.int 2) (.int 1)).2 = .ok ["3", "4"] := by decide +kernel
  obtain rfl := Except.ok.inj ((congrArg Prod.snd hfirst).symm.trans hdropped)
  obtain rfl := Except.ok.inj ((congrArg Prod.snd hsecond).symm.trans hdropped')
  obtain rfl := Except.ok.inj ((congrArg Prod.snd hsingle).symm.trans hdropped'')
  exact ⟨hconsistent, by decide +kernel, _, second, hfirst, R,
    (R.tiles 1 0 (by decide) (by decide)).trans (by decide +kernel), hsecond, hsingle⟩

end World

end TileScript
