import TileScript.Proofs.World.Edits

/-!
# Changes that fail

Hosts may supply worlds whose board and records do not agree: a record may be missing or say a place
outside the board, and a text may stand on several tiles. A change of such a world may fail, but it
does not stop half way. All that can go wrong is found by its checks, before anything is changed, as
long as the board is a rectangle and the texts on it are those of numbers.

Resizing looks at every record after the old board is gone. There no check comes before, and the
records themselves have to be such that they can be looked at.

## Main definitions

* `World.Legible`: the board is a rectangle, and its texts are those of numbers.
* `Scalar.FitsFloat`: the value is no integer beyond all floating point numbers.

## Main statements

* `World.Legible.exists_spawn`, `World.Legible.exists_move`, `World.exists_resize`: a change that
  passes its checks is done.
* `World.failed_changes_nothing`: a change that fails has changed nothing.
-/

namespace TileScript

/-- The board is a rectangle, and every text on it is that of a number. -/
structure World.Legible (world : World) : Prop where
  rectangle : ∃ columns rows, world.board.IsRectangle columns rows
  names : ∀ name ∈ world.board.flatten.flatten, ∃ id, parseId name = .ok id

/-- The value is no integer beyond all floating point numbers. -/
def Scalar.FitsFloat : Scalar → Prop
  | .int n => (Binary64.ofInt? n).isSome = true
  | _ => True

instance : DecidablePred Scalar.FitsFloat
  | .int n => inferInstanceAs (Decidable ((Binary64.ofInt? n).isSome = true))
  | .null | .bool _ | .float _ | .text _ => .isTrue trivial

namespace Scalar.FitsFloat

variable {value x y : Scalar}

theorem exists_gridIndex? (h : value.FitsFloat) : ∃ index?, value.gridIndex? = .ok index? := by
  cases value with
  | int n =>
    obtain ⟨float, hfloat⟩ := Option.isSome_iff_exists.mp h
    exact ⟨some n, bind_eq_ok (Number.toFloat_int_eq_ok_iff.mpr hfloat) rfl⟩
  | _ => exact ⟨_, rfl⟩

theorem exists_gridTile? (hx : x.FitsFloat) (hy : y.FitsFloat) :
    ∃ place?, gridTile? x y = .ok place? := by
  obtain ⟨column?, hcolumn⟩ := hx.exists_gridIndex?
  obtain ⟨row?, hrow⟩ := hy.exists_gridIndex?
  rw [gridTile?, hcolumn, hrow]
  cases column? with
  | none => exact ⟨none, rfl⟩
  | some column => cases row? <;> exact ⟨_, rfl⟩

theorem written (h : value.FitsFloat) : value.Written := by
  cases value with
  | int n =>
    obtain ⟨float, hfloat⟩ := Option.isSome_iff_exists.mp h
    exact written_of_ofInt? hfloat
  | _ => rfl

end Scalar.FitsFloat

namespace World

variable {world : World}

/-! ## Texts of numbers -/

theorem exists_evict (objects : Table Scalar TileObject) {names : List String}
    (h : ∀ name ∈ names, ∃ id, parseId name = .ok id) :
    ∃ objects', evict objects names = (objects', .ok ()) := by
  induction names generalizing objects with
  | nil => exact ⟨objects, rfl⟩
  | cons name names ih =>
    obtain ⟨⟨id, hid⟩, hnames⟩ := List.forall_mem_cons.mp h
    rw [evict, hid]
    exact ih (objects.erase id) hnames

theorem exists_displace (board : Board) (objects : Table Scalar TileObject) (start : ℕ × ℕ)
    (x y : Scalar) {names : List String} (h : ∀ name ∈ names, ∃ id, parseId name = .ok id) :
    ∃ board' objects', displace board objects start x y names = (board', objects', .ok ()) := by
  induction names generalizing board objects with
  | nil => exact ⟨board, objects, rfl⟩
  | cons name names ih =>
    obtain ⟨⟨id, hid⟩, hnames⟩ := List.forall_mem_cons.mp h
    rw [displace, hid]
    exact ih _ _ hnames

/-- A tile has lost some of its texts when one is lifted off the board. -/
theorem exists_tile?_lift {board : Board} {column row : ℕ} {tile : Tile}
    (h : board.tile? column row = some tile) (name : String) (place : Option (ℕ × ℕ)) :
    ∃ tile', (lift board name place).tile? column row = some tile' ∧ tile' ⊆ tile := by
  cases place with
  | none =>
    refine ⟨tile.filter (· != name), ?_, List.filter_subset_self tile⟩
    rw [lift, Board.tile?_scrub, h, Option.map_some]
  | some place =>
    rw [lift, Board.tile?_modifyTile, h]
    split
    · exact ⟨tile.erase name, rfl, List.erase_subset⟩
    · exact ⟨tile, rfl, List.Subset.refl tile⟩

namespace Legible

/-- The texts of a tile, or of what is left of it, are those of numbers. -/
theorem exists_ids (H : world.Legible) {column row : ℕ} {tile tile' : Tile}
    (htile : world.board.tile? column row = some tile) (h : tile' ⊆ tile) :
    ∀ name ∈ tile', ∃ id, parseId name = .ok id := fun name hname =>
  H.names name (Board.mem_flatten_iff.mpr ⟨column, row, tile, htile, h hname⟩)

/-! ## Changes that pass their checks -/

/-- A checked placement is done. -/
theorem exists_spawn (H : world.Legible) {id x y : Scalar} {plan : Placement}
    (hplan : world.planSpawn id x y = .ok plan) (state : Scalar) :
    ∃ after evicted, world.spawn id x y state = (after, .ok evicted) := by
  obtain ⟨columns, rows, hboard⟩ := H.rectangle
  obtain ⟨-, -, -, -, hinside⟩ := planSpawn_eq_ok hboard hplan
  obtain ⟨tile, htile⟩ := Option.isSome_iff_exists.mp hinside
  obtain ⟨evicted, hevicted, hsubset⟩ := exists_tile?_lift htile plan.name none
  obtain ⟨objects, hobjects⟩ := exists_evict world.objects (H.exists_ids htile hsubset)
  rw [lift] at hevicted
  rw [World.spawn, hplan]
  simp only [hevicted, hobjects]
  exact ⟨_, _, rfl⟩

/-- A checked move ends on a tile of the board. -/
theorem exists_target (H : world.Legible) {id direction x y : Scalar} {journey : Journey}
    (hplan : world.planMove id direction x y = .ok journey) :
    ∃ tile, world.board.tile? journey.column journey.row = some tile := by
  obtain ⟨columns, rows, hboard⟩ := H.rectangle
  rw [planMove] at hplan
  obtain ⟨id, -, hplan⟩ := bind_eq_ok_iff.mp hplan
  cases hget : world.objects.get? id with
  | none => simp only [hget] at hplan; cases hplan
  | some object =>
    simp only [hget] at hplan
    obtain ⟨target, -, hplan⟩ := bind_eq_ok_iff.mp hplan
    obtain ⟨index, -, hplan⟩ := bind_eq_ok_iff.mp hplan
    cases index with
    | none => cases hplan
    | some index =>
      cases hlocate : world.board.locateIndex? index.1 index.2 with
      | none => simp only [hlocate] at hplan; cases hplan
      | some place =>
        obtain ⟨-, -, hinside⟩ := hboard.locateIndex?_eq_some_iff.mp hlocate
        simp only [hlocate] at hplan
        obtain ⟨start?, -, hplan⟩ := bind_eq_ok_iff.mp hplan
        obtain ⟨name, -, hplan⟩ := bind_eq_ok_iff.mp hplan
        refine Option.isSome_iff_exists.mp ?_
        cases start? with
        | none => cases hplan; exact hinside
        | some start =>
          cases htile : world.board.tile? start.1 start.2 with
          | none => simp only [htile] at hplan; cases hplan
          | some tile => simp only [htile] at hplan; cases hplan; exact hinside

/-- A checked move is done. -/
theorem exists_move (H : world.Legible) {id direction x y : Scalar} {journey : Journey}
    (hplan : world.planMove id direction x y = .ok journey) (state swap : Scalar) :
    ∃ after moved, world.move id direction x y state swap = (after, .ok moved) := by
  obtain ⟨tile, htile⟩ := H.exists_target hplan
  obtain ⟨target, htarget, hsubset⟩ := exists_tile?_lift htile journey.name
    (if journey.present then journey.start? else none)
  have hids := H.exists_ids htile hsubset
  rw [World.move, hplan]
  simp only [htarget]
  split
  · next start _ =>
    split
    · obtain ⟨board, objects, hdisplace⟩ := exists_displace
        ((lift world.board journey.name
          (if journey.present then journey.start? else none)).modifyTile
            journey.column journey.row fun _ => [])
        world.objects start journey.object.x journey.object.y hids
      simp only [hdisplace]
      exact ⟨_, _, rfl⟩
    · exact ⟨_, _, rfl⟩
  · exact ⟨_, _, rfl⟩

end Legible

/-- Objects are put back on a board without a fault if their places can be looked at and their keys
be written. -/
theorem fault?_restack (board : Board) {entries : List (Scalar × TileObject)}
    (h : ∀ entry ∈ entries, entry.1.FitsFloat ∧ entry.2.x.FitsFloat ∧ entry.2.y.FitsFloat) :
    (restack board entries).fault? = none := by
  induction entries generalizing board with
  | nil => rfl
  | cons entry rest ih =>
    obtain ⟨⟨hkey, hx, hy⟩, hrest⟩ := List.forall_mem_cons.mp h
    obtain ⟨name, hname⟩ := Option.isSome_iff_exists.mp hkey.written
    obtain ⟨place?, hplace⟩ := hx.exists_gridTile? hy
    have hline := Scalar.line_of_display? hname
    have hlocate : ∃ located?, board.locate entry.2.x entry.2.y = .ok located? := by
      rw [Board.locate, hplace]
      cases place? <;> exact ⟨_, rfl⟩
    obtain ⟨located?, hlocate⟩ := hlocate
    cases located? with
    | none => rw [restack_cons_of_none hlocate hline]; exact ih _ hrest
    | some place => rw [restack_cons_of_some hlocate hline]; exact ih _ hrest

/-- A checked size is given to the board. -/
theorem exists_resize {width height : Scalar} {size : ℕ × ℕ}
    (hplan : planResize width height = .ok size)
    (h : ∀ entry ∈ world.objects.entries,
      entry.1.FitsFloat ∧ entry.2.x.FitsFloat ∧ entry.2.y.FitsFloat) :
    ∃ after dropped, world.resize width height = (after, .ok dropped) := by
  rw [World.resize, hplan]
  simp only [fault?_restack _ h]
  exact ⟨_, _, rfl⟩

/-! ## Changes that fail -/

/-- A change that is done whenever its checks pass, and that stops with the fault of its checks
otherwise, fails with their fault only and then leaves the world as it was. -/
theorem unchanged_of_checked {α β : Type} {checks : Except Fault β} {outcome : Outcome α}
    {fault : Fault} (h : outcome.2 = .error fault)
    (hdone : ∀ plan, checks = .ok plan → ∃ after a, outcome = (after, .ok a))
    (hstop : ∀ cause, checks = .error cause → outcome = (world, .error cause)) :
    checks = .error fault ∧ outcome.1 = world := by
  cases hchecks : checks with
  | ok plan =>
    obtain ⟨after, a, houtcome⟩ := hdone plan hchecks
    rw [houtcome] at h
    cases h
  | error cause =>
    rw [hstop cause hchecks] at h ⊢
    exact ⟨congrArg Except.error (Except.error.inj h), rfl⟩

/-- **A change that fails has changed nothing.** Let the board be a rectangle and every text on it
that of a number, whatever the records say and wherever the texts stand. If a placement, a removal
or a move with any values fails, then its checks have failed, and the world is as it was; and so it
is if resizing fails, provided that no key and no recorded coordinate is an integer beyond all
floating point numbers. -/
theorem failed_changes_nothing (H : world.Legible) :
    (∀ id x y state fault, (world.spawn id x y state).2 = .error fault →
      world.planSpawn id x y = .error fault ∧ (world.spawn id x y state).1 = world) ∧
    (∀ id fault, (world.despawn id).2 = .error fault →
      world.planDespawn id = .error fault ∧ (world.despawn id).1 = world) ∧
    (∀ id direction x y state swap fault,
      (world.move id direction x y state swap).2 = .error fault →
      world.planMove id direction x y = .error fault ∧
        (world.move id direction x y state swap).1 = world) ∧
    ((∀ entry ∈ world.objects.entries,
        entry.1.FitsFloat ∧ entry.2.x.FitsFloat ∧ entry.2.y.FitsFloat) →
      ∀ width height fault, (world.resize width height).2 = .error fault →
        planResize width height = .error fault ∧ (world.resize width height).1 = world) := by
  refine ⟨fun id x y state fault h => ?_, fun id fault h => ?_,
    fun id direction x y state swap fault h => ?_, fun hentries width height fault h => ?_⟩
  · refine unchanged_of_checked h (fun plan hplan => H.exists_spawn hplan state)
      fun cause hplan => ?_
    rw [World.spawn, hplan]
  · refine unchanged_of_checked h (fun plan hplan => ?_) fun cause hplan => ?_
    · rw [World.despawn, hplan]
      exact ⟨_, _, rfl⟩
    · rw [World.despawn, hplan]
  · refine unchanged_of_checked h (fun plan hplan => H.exists_move hplan state swap)
      fun cause hplan => ?_
    rw [World.move, hplan]
  · refine unchanged_of_checked h (fun plan hplan => exists_resize hplan hentries)
      fun cause hplan => ?_
    rw [World.resize, hplan]

/-- A world in which an object is recorded outside the board, its text stands on two tiles, and
another text has no record. -/
def muddledWorld : World :=
  { World.empty with
    canvas := ⟨some (.int 2), some (.int 1)⟩
    board := [[["1", "1"], ["7", "1"]]]
    objects := ⟨[(.int 1, ⟨.int 1, .int 9, .int 0, .int 0⟩)]⟩ }

theorem failed_changes_nothing_muddled : muddledWorld.Legible ∧
    (muddledWorld.move (.int 1) "up" .null .null .null (.bool true)).1 = muddledWorld ∧
    (muddledWorld.spawn (.int 7) (.int 2) (.int 0) .null).1 = muddledWorld ∧
    (muddledWorld.despawn (.int 7)).1 = muddledWorld ∧
    (muddledWorld.resize (.int 0) (.int 3)).1 = muddledWorld := by
  have hlegible : muddledWorld.Legible := by
    refine ⟨⟨2, 1, rfl, by simp [muddledWorld]⟩, fun name hname => ?_⟩
    obtain rfl | rfl | rfl : name = "1" ∨ name = "7" ∨ name = "1" := by
      simpa [muddledWorld] using hname
    all_goals exact ⟨_, by rfl⟩
  have hentries : ∀ entry ∈ muddledWorld.objects.entries,
      entry.1.FitsFloat ∧ entry.2.x.FitsFloat ∧ entry.2.y.FitsFloat := by
    simp only [muddledWorld, List.mem_singleton, forall_eq, Scalar.FitsFloat]
    decide +kernel
  -- The results of moves cannot be compared, but their faults can.
  have houtside : (muddledWorld.move (.int 1) "up" .null .null .null (.bool true)).2 =
      .error (.targetOutside 9 (-1) (.int 2) (.int 1)) := by
    have hfault : (muddledWorld.move (.int 1) "up" .null .null .null (.bool true)).2.map
        (fun _ => ()) = .error (.targetOutside 9 (-1) (.int 2) (.int 1)) := by decide +kernel
    generalize (muddledWorld.move (.int 1) "up" .null .null .null (.bool true)).2 = result
      at hfault ⊢
    cases result with
    | ok moved => cases hfault
    | error fault => exact congrArg Except.error (Except.error.inj hfault)
  obtain ⟨hspawn, hdespawn, hmove, hresize⟩ := failed_changes_nothing hlegible
  refine ⟨hlegible, (hmove _ _ _ _ _ _ _ houtside).2,
    (hspawn _ _ _ _ (.placementOutside (.int 7) 2 0 (.int 2) (.int 1)) ?_).2,
    (hdespawn _ (.nothingToRemove (.int 7)) ?_).2,
    (hresize hentries _ _ (.dimensionsNotPositive (.int 0) (.int 3)) ?_).2⟩
  · decide +kernel
  · decide +kernel
  · decide +kernel

end World

end TileScript
