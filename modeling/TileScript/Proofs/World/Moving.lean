import TileScript.Proofs.World.Placing

/-!
# What moving does

A move takes an object from its tile to another. Without a swap it comes on top of whatever stands
there. With a swap it has the tile for itself, and whatever stood there comes to the tile that the
object left, on top of what is left there. In both cases the records of those that changed their
tiles follow, and no text is lost.

An object that was alone on its tile leaves it empty, so that a swap which leads back there puts
everything in its old place, whether or not the first move was a swap.

## Main definitions

* `Board.Carried`, `Board.Swapped`: the board after a move, tile by tile.
* `World.Relocated`: what a move makes of a world.
* `World.Leads`: the place to which the values of a move lead from another place.
* `World.PlacedAs`: the board and the places of all objects are those of another world.

## Main statements

* `Board.Carried.restored`, `Board.Swapped.restored`: the board after a swap back.
* `World.Consistent.exists_relocated`: a move that succeeds has this effect.
* `World.move_exact`: the effect, and the way back.
-/

namespace TileScript

/-! ## Texts that change their tiles -/

namespace Board

variable {board : Board} {name : String} {column row column' row' : ℕ} {tile target : Tile}

/-- A text is taken off its tile and put on top of another, or of its own. -/
def Carried (board after : Board) (name : String) (column row column' row' : ℕ) : Prop :=
  ∀ c r, after.tile? c r = (board.tile? c r).map fun tile =>
    (if c = column ∧ r = row then tile.filter (· != name) else tile) ++
      if c = column' ∧ r = row' then [name] else []

/-- A text takes another tile for itself, and the texts that were there come to its own tile, on
top of those that are left there. -/
def Swapped (board after : Board) (name : String) (column row column' row' : ℕ)
    (swapped : List String) : Prop :=
  ∀ c r, after.tile? c r = (board.tile? c r).map fun tile =>
    if c = column' ∧ r = row' then [name]
    else if c = column ∧ r = row then tile.filter (· != name) ++ swapped
    else tile

/-- The board with a text lifted off its tile and put down on another. -/
def carry (board : Board) (name : String) (column row column' row' : ℕ) : Board :=
  (board.modifyTile column row (·.erase name)).modifyTile column' row' (· ++ [name])

/-- The board with a text lifted off its tile, the texts of another tile carried there, and the
text put down on the other tile. -/
def swap (board : Board) (name : String) (column row column' row' : ℕ) (target : Tile) : Board :=
  (((board.modifyTile column row (·.erase name)).modifyTile column' row' fun _ => []).modifyTile
    column row (· ++ target)).modifyTile column' row' (· ++ [name])

variable (hnodup : board.flatten.flatten.Nodup) (htile : board.tile? column row = some tile)
include htile

section
include hnodup

theorem carried_carry (name : String) (column' row' : ℕ) :
    board.Carried (board.carry name column row column' row') name column row column' row' := by
  have herase := (nodup_tile hnodup htile).erase_eq_filter name
  intro c r
  simp only [carry, tile?_modifyTile]
  by_cases hend : c = column' ∧ r = row'
  · obtain ⟨rfl, rfl⟩ := hend
    by_cases hstart : c = column ∧ r = row
    · obtain ⟨rfl, rfl⟩ := hstart
      simp [htile, herase]
    · simp [hstart]
  · by_cases hstart : c = column ∧ r = row
    · obtain ⟨rfl, rfl⟩ := hstart
      simp [hend, htile, herase]
    · simp [hstart, hend]

theorem swapped_swap (htarget : board.tile? column' row' = some target)
    (hother : ¬(column' = column ∧ row' = row)) (name : String) :
    board.Swapped (board.swap name column row column' row' target) name column row column' row'
      target := by
  have herase := (nodup_tile hnodup htile).erase_eq_filter name
  have hother' : ¬(column = column' ∧ row = row') := fun h => hother ⟨h.1.symm, h.2.symm⟩
  intro c r
  simp only [swap, tile?_modifyTile]
  by_cases hend : c = column' ∧ r = row'
  · obtain ⟨rfl, rfl⟩ := hend
    simp [hother, htarget]
  · by_cases hstart : c = column ∧ r = row
    · obtain ⟨rfl, rfl⟩ := hstart
      simp [hother', htile, herase]
    · simp [hstart, hend]

end

theorem perm_carry (hname : name ∈ tile) (hinside : (board.tile? column' row').isSome = true) :
    (board.carry name column row column' row').flatten.flatten.Perm board.flatten.flatten := by
  obtain ⟨rest, hrest⟩ : ∃ rest,
      (board.modifyTile column row (·.erase name)).tile? column' row' = some rest :=
    Option.isSome_iff_exists.mp (by simpa using hinside)
  exact (perm_append hrest [name]).trans (perm_erase htile hname).symm

theorem perm_swap (hname : name ∈ tile) (htarget : board.tile? column' row' = some target)
    (hother : ¬(column' = column ∧ row' = row)) :
    (board.swap name column row column' row' target).flatten.flatten.Perm
      board.flatten.flatten := by
  set lifted := board.modifyTile column row (·.erase name) with hlifted
  have htarget' : lifted.tile? column' row' = some target := by
    rw [hlifted, tile?_modifyTile, if_neg hother, htarget]
  set cleared := lifted.modifyTile column' row' fun _ => [] with hcleared
  obtain ⟨start, hstart⟩ : ∃ start, cleared.tile? column row = some start :=
    Option.isSome_iff_exists.mp (by simp [hcleared, hlifted, htile])
  obtain ⟨rest, hrest⟩ : ∃ rest,
      (cleared.modifyTile column row (· ++ target)).tile? column' row' = some rest :=
    Option.isSome_iff_exists.mp (by simp [hcleared, hlifted, htarget])
  calc (board.swap name column row column' row' target).flatten.flatten
      _ |>.Perm ([name] ++ (cleared.modifyTile column row (· ++ target)).flatten.flatten) :=
        perm_append hrest [name]
      _ |>.Perm ([name] ++ (target ++ cleared.flatten.flatten)) :=
        (perm_append hstart target).append_left [name]
      _ |>.Perm ([name] ++ lifted.flatten.flatten) := (perm_clear htarget').symm.append_left [name]
      _ |>.Perm board.flatten.flatten := (perm_erase htile hname).symm

end Board

/-! ## There and back -/

namespace Board

variable {board after back : Board} {name : String} {column row column' row' : ℕ}

/-- A text that is alone on its tile stays where it is if it is put down in its place. -/
theorem Carried.tile?_eq (hcarried : board.Carried after name column row column row)
    (htile : board.tile? column row = some [name]) (c r : ℕ) :
    after.tile? c r = board.tile? c r := by
  rw [hcarried c r]
  by_cases hplace : c = column ∧ r = row
  · obtain ⟨rfl, rfl⟩ := hplace
    simp [htile]
  · simp [hplace]

section

variable {swapped : List String} (hnodup : board.flatten.flatten.Nodup)
  (htile : board.tile? column row = some [name]) (hother : ¬(column' = column ∧ row' = row))
  (hback : after.Swapped back name column' row' column row swapped)
  (hswapped : after.tile? column row = some swapped)
include htile hother hback hswapped

include hnodup in
/-- A text that was alone on its tile and was put on top of another comes back by a swap, which
has nothing to swap with. -/
theorem Carried.restored (hcarried : board.Carried after name column row column' row') :
    swapped = [] ∧ ∀ c r, back.tile? c r = board.tile? c r := by
  have hother' : ¬(column = column' ∧ row = row') := fun h => hother ⟨h.1.symm, h.2.symm⟩
  have hempty : swapped = [] := by
    rw [hcarried, htile] at hswapped
    simpa [hother'] using hswapped.symm
  refine ⟨hempty, ?_⟩
  intro c r
  rw [hback c r, hcarried c r, hempty]
  by_cases hstart : c = column ∧ r = row
  · obtain ⟨rfl, rfl⟩ := hstart
    simp [htile]
  · by_cases hend : c = column' ∧ r = row'
    · obtain ⟨rfl, rfl⟩ := hend
      cases htarget : board.tile? c r with
      | none => rfl
      | some target =>
        -- The text was not among those that it came on top of, so that these are left alone.
        have hnot := notMem_of_nodup hnodup htile htarget hstart (List.mem_singleton_self name)
        have hself : target.filter (· != name) = target := by
          apply List.filter_eq_self.mpr
          intro text htext
          rw [bne_iff_ne]
          rintro rfl
          exact hnot htext
        simp [hstart, hself]
    · simp [hstart, hend]

/-- A text that was alone on its tile changes places with others twice. -/
theorem Swapped.restored {target : Tile} (htarget : board.tile? column' row' = some target)
    (hswap : board.Swapped after name column row column' row' target) :
    swapped = target ∧ ∀ c r, back.tile? c r = board.tile? c r := by
  have hother' : ¬(column = column' ∧ row = row') := fun h => hother ⟨h.1.symm, h.2.symm⟩
  have hsame : swapped = target := by
    rw [hswap, htile] at hswapped
    simpa [hother'] using hswapped.symm
  refine ⟨hsame, ?_⟩
  intro c r
  rw [hback c r, hswap c r, hsame]
  by_cases hstart : c = column ∧ r = row
  · obtain ⟨rfl, rfl⟩ := hstart
    simp [htile]
  · by_cases hend : c = column' ∧ r = row'
    · obtain ⟨rfl, rfl⟩ := hend
      simp [hstart, htarget]
    · simp [hstart, hend]

end

end Board

namespace World

variable {world : World}

/-! ## Records -/

/-- The objects whose texts are carried to a tile get its place in their records, and keep their
states. -/
theorem displace_eq {objects : Table Scalar TileObject} (H : objects.Keyed Scalar.IsId)
    (board : Board) (start : ℕ × ℕ) (x y : Scalar) {names : List String}
    (hnames : ∀ name ∈ names, ∃ id : Scalar, id.IsId ∧ id.display? = some name) :
    displace board objects start x y names =
      (board.modifyTile start.1 start.2 (· ++ names),
        ⟨objects.entries.map fun entry =>
          (entry.1, if entry.1.isAmong names then { entry.2 with x, y } else entry.2)⟩,
        .ok ()) := by
  induction names generalizing board objects with
  | nil =>
    have hboard := board.modifyTile_id start.1 start.2
    simp [displace, ← Function.id_def, hboard]
  | cons name names ih =>
    obtain ⟨⟨id, hid, hname⟩, hrest⟩ := List.forall_mem_cons.mp hnames
    obtain ⟨name', hname', hparse⟩ := hid.exists_name
    obtain rfl : name' = name := Option.some.inj (hname'.symm.trans hname)
    have happend : ((· ++ names) ∘ (· ++ [name']) : Tile → Tile) = (· ++ name' :: names) := by
      funext tile
      simp
    rw [displace, hparse]
    simp only
    rw [ih (H.modify Scalar.exact_isId hid _) _ hrest, Board.modifyTile_modifyTile, happend,
      H.entries_modify Scalar.exact_isId hid, List.map_map]
    congr 3
    apply List.map_congr_left
    intro entry hentry
    rw [Scalar.isAmong_cons (H.admitted entry hentry) hid hname]
    by_cases heq : entry.1 = id <;> simp [heq]

/-- The record of an object after a move. The mover has the new place, and a new state if one is
given; an object that was swapped has the old place of the mover. -/
def Moved.record (moved : Moved) (key state : Scalar) (entry : Scalar × TileObject) : TileObject :=
  if entry.1 = key then
    { entry.2 with
      x := .int moved.newX
      y := .int moved.newY
      state := if state = .null then entry.2.state else state.normalize }
  else if entry.1.isAmong moved.swapped then { entry.2 with x := moved.oldX, y := moved.oldY }
  else entry.2

/-! ## Moving -/

/-- What a move makes of a world in which the mover stands in the column and the row. -/
structure Relocated (world : World) (key : Scalar) (name : String) (column row : ℕ)
    (state swap : Scalar) (after : World) (moved : Moved) : Prop where
  /-- The result tells the old place. -/
  origin : moved.oldX = .int column ∧ moved.oldY = .int row
  /-- Only the board and the records change. -/
  frame : after = { world with board := after.board, objects := after.objects }
  /-- The rows of the board are as long as before. -/
  shape : after.board.map List.length = world.board.map List.length
  /-- The new place is on the board. -/
  inside : (world.board.tile? moved.newX moved.newY).isSome = true
  /-- Without a swap, and in its place, the mover comes on top of what stands on its new tile. -/
  carried : swap.truthy = false ∨ (moved.newX = column ∧ moved.newY = row) →
    moved.swapped = [] ∧ world.board.Carried after.board name column row moved.newX moved.newY
  /-- With a swap it changes places with what stands on its new tile, and the result tells that. -/
  swapped : swap.truthy = true → ¬(moved.newX = column ∧ moved.newY = row) →
    world.board.tile? moved.newX moved.newY = some moved.swapped ∧
      world.board.Swapped after.board name column row moved.newX moved.newY moved.swapped
  /-- The records follow, and stay in their order. -/
  records : after.objects.entries =
    world.objects.entries.map fun entry => (entry.1, moved.record key state entry)
  /-- No text is lost and none comes in. -/
  texts : after.board.flatten.flatten.Perm world.board.flatten.flatten

section

variable {key id direction x y : Scalar} {name : String} {object : TileObject} {column row : ℕ}
  {tile : Tile} {column' row' : ℕ}

/-- A place is compared by both of its numbers. -/
theorem same_place (column row column' row' : ℕ) :
    ((Scalar.int column).same (.int column') && (Scalar.int row).same (.int row')) =
      decide (column' = column ∧ row' = row) := by
  simp only [Scalar.same, Scalar.number?, Number.same]
  rw [Bool.eq_iff_iff, Bool.and_eq_true, beq_iff_eq, beq_iff_eq, decide_eq_true_eq,
    Int.natCast_inj, Int.natCast_inj, eq_comm, eq_comm (a := row)]

theorem Standing.move_eq_carry (S : world.Standing key name object column row tile)
    (hplan : world.planMove id direction x y =
      .ok ⟨key, name, object, some (column, row), true, column', row'⟩)
    (hinside : (world.board.tile? column' row').isSome = true) (state : Scalar) {swap : Scalar}
    (hswap : swap.truthy = false ∨ (column' = column ∧ row' = row)) :
    world.move id direction x y state swap =
      ({ world with
          board := world.board.carry name column row column' row'
          objects := world.objects.modify key fun object =>
            { object with
              x := .int column'
              y := .int row'
              state := if state = .null then object.state else state.normalize } },
        .ok ⟨.int column, .int row, column', row', []⟩) := by
  obtain ⟨rest, hrest⟩ : ∃ rest,
      (world.board.modifyTile column row (·.erase name)).tile? column' row' = some rest :=
    Option.isSome_iff_exists.mp (by simpa using hinside)
  have hbranch : (swap.truthy && !decide (column' = column ∧ row' = row)) = false := by
    rcases hswap with hswap | hsame
    · simp [hswap]
    · simp [hsame]
  rw [World.move, hplan]
  simp only [if_true, lift, S.place.1, S.place.2, same_place, hrest, hbranch]
  rfl

theorem Standing.move_eq_swap (S : world.Standing key name object column row tile)
    (H : world.Regular)
    (hplan : world.planMove id direction x y =
      .ok ⟨key, name, object, some (column, row), true, column', row'⟩) {target : Tile}
    (htarget : world.board.tile? column' row' = some target)
    (hother : ¬(column' = column ∧ row' = row)) (state : Scalar) {swap : Scalar}
    (hswap : swap.truthy = true) :
    world.move id direction x y state swap =
      ({ world with
          board := world.board.swap name column row column' row' target
          objects := Table.modify ⟨world.objects.entries.map fun entry => (entry.1,
            if entry.1.isAmong target then { entry.2 with x := .int column, y := .int row }
            else entry.2)⟩ key fun object =>
            { object with
              x := .int column'
              y := .int row'
              state := if state = .null then object.state else state.normalize } },
        .ok ⟨.int column, .int row, column', row', target⟩) := by
  have hlifted : (world.board.modifyTile column row (·.erase name)).tile? column' row' =
      some target := by
    rw [Board.tile?_modifyTile, if_neg hother, htarget]
  have hnames : ∀ text ∈ target, ∃ id : Scalar, id.IsId ∧ id.display? = some text := by
    intro text htext
    apply H.names
    exact Board.mem_flatten_iff.mpr ⟨_, _, _, htarget, htext⟩
  have hbranch : (swap.truthy && !decide (column' = column ∧ row' = row)) = true := by
    simp [hswap, hother]
  rw [World.move, hplan]
  simp only [if_true, lift, S.place.1, S.place.2, same_place, hlifted, hbranch,
    displace_eq H.keyed _ _ _ _ hnames]
  rfl

/-- A checked move does what moving should do. -/
theorem Standing.exists_relocated (S : world.Standing key name object column row tile)
    (H : world.Regular) (hnodup : world.board.flatten.flatten.Nodup)
    (hplan : world.planMove id direction x y =
      .ok ⟨key, name, object, some (column, row), true, column', row'⟩)
    (hinside : (world.board.tile? column' row').isSome = true) (state swap : Scalar) :
    ∃ after moved, world.move id direction x y state swap = (after, .ok moved) ∧
      moved.newX = column' ∧ moved.newY = row' ∧
      world.Relocated key name column row state swap after moved := by
  have hkey := H.keyed.admitted _ S.recorded
  by_cases hswap : swap.truthy = false ∨ (column' = column ∧ row' = row)
  · refine ⟨_, _, S.move_eq_carry hplan hinside state hswap, rfl, rfl, ?_⟩
    constructor
    case origin => exact ⟨rfl, rfl⟩
    case frame => rfl
    case shape => simp [Board.carry]
    case inside => exact hinside
    case carried => exact fun _ => ⟨rfl, Board.carried_carry hnodup S.shown name column' row'⟩
    case swapped =>
      intro hswap' hother
      rcases hswap with hswap | hsame
      · rw [hswap] at hswap'
        cases hswap'
      · exact absurd hsame hother
    case records =>
      rw [H.keyed.entries_modify Scalar.exact_isId hkey]
      apply List.map_congr_left
      intro entry _
      by_cases heq : entry.1 = key <;> simp [Moved.record, heq]
    case texts => exact Board.perm_carry S.shown S.mem hinside
  · obtain ⟨hswap, hother⟩ := not_or.mp hswap
    rw [Bool.not_eq_false] at hswap
    obtain ⟨target, htarget⟩ := Option.isSome_iff_exists.mp hinside
    refine ⟨_, _, S.move_eq_swap H hplan htarget hother state hswap, rfl, rfl, ?_⟩
    constructor
    case origin => exact ⟨rfl, rfl⟩
    case frame => rfl
    case shape => simp [Board.swap]
    case inside => exact hinside
    case carried =>
      rintro (hswap' | hsame)
      · rw [hswap] at hswap'
        cases hswap'
      · exact absurd hsame hother
    case swapped =>
      exact fun _ _ => ⟨htarget, Board.swapped_swap hnodup S.shown htarget hother name⟩
    case records =>
      rw [Table.Keyed.entries_modify Scalar.exact_isId hkey
        (H.keyed.of_keys_eq (by simp [Table.keys])), List.map_map]
      apply List.map_congr_left
      intro entry _
      by_cases heq : entry.1 = key
      · -- The place of the mover is set last.
        by_cases hamong : key.isAmong target <;> simp [Moved.record, heq, hamong]
      · simp [Moved.record, heq]
    case texts => exact Board.perm_swap S.shown S.mem htarget hother

end

namespace Relocated

variable {key state swap state' swap' : Scalar} {name : String} {object : TileObject}
  {column row : ℕ} {tile : Tile} {after back : World} {moved moved' : Moved}

theorem keys (R : world.Relocated key name column row state swap after moved) :
    after.objects.keys = world.objects.keys := by
  simp [Table.keys, R.records]

theorem regular (R : world.Relocated key name column row state swap after moved)
    (H : world.Regular) : after.Regular where
  rectangle := by
    obtain ⟨columns, rows, hboard⟩ := H.rectangle
    exact ⟨columns, rows, hboard.of_map_length R.shape⟩
  keyed := H.keyed.of_keys_eq R.keys
  names text htext := H.names text (R.texts.mem_iff.mp htext)

/-- A move carries the text of the mover or swaps it. -/
theorem carried_or_swapped (R : world.Relocated key name column row state swap after moved) :
    (moved.swapped = [] ∧
      world.board.Carried after.board name column row moved.newX moved.newY) ∨
    (world.board.tile? moved.newX moved.newY = some moved.swapped ∧
      world.board.Swapped after.board name column row moved.newX moved.newY moved.swapped) := by
  by_cases hswap : swap.truthy = false ∨ (moved.newX = column ∧ moved.newY = row)
  · exact .inl (R.carried hswap)
  · obtain ⟨hswap, hother⟩ := not_or.mp hswap
    exact .inr (R.swapped (by simpa using hswap) hother)

theorem isSome_tile? (R : world.Relocated key name column row state swap after moved)
    (c r : ℕ) : (after.board.tile? c r).isSome = (world.board.tile? c r).isSome := by
  rcases R.carried_or_swapped with ⟨-, hcarried⟩ | ⟨-, hswapped⟩
  · rw [hcarried c r, Option.isSome_map]
  · rw [hswapped c r, Option.isSome_map]

/-- The mover stands where it was moved. -/
theorem exists_standing (R : world.Relocated key name column row state swap after moved)
    (S : world.Standing key name object column row tile) :
    ∃ tile', after.Standing key name (moved.record key state (key, object)) moved.newX moved.newY
      tile' := by
  have hrecord : (key, moved.record key state (key, object)) ∈ after.objects.entries := by
    rw [R.records]
    exact List.mem_map.mpr ⟨_, S.recorded, rfl⟩
  have hplace : (moved.record key state (key, object)).StandsAt moved.newX moved.newY := by
    simp [Moved.record, TileObject.StandsAt]
  obtain ⟨target, htarget⟩ := Option.isSome_iff_exists.mp R.inside
  rcases R.carried_or_swapped with ⟨-, hcarried⟩ | ⟨-, hswapped⟩
  · have htile := hcarried moved.newX moved.newY
    rw [htarget, Option.map_some] at htile
    exact ⟨_, hrecord, S.text, hplace, htile, by simp⟩
  · have htile := hswapped moved.newX moved.newY
    rw [htarget, Option.map_some] at htile
    exact ⟨_, hrecord, S.text, hplace, htile, by simp⟩

/-- A mover that was alone on its tile swaps back there with those with whom it had swapped, and
every text is where it was. -/
theorem board_restored (R : world.Relocated key name column row state swap after moved)
    (R' : after.Relocated key name moved.newX moved.newY state' swap' back moved')
    (S : world.Standing key name object column row [name])
    (hnodup : world.board.flatten.flatten.Nodup) (hswap' : swap'.truthy = true)
    (hback : moved'.newX = column ∧ moved'.newY = row) :
    moved'.swapped = moved.swapped ∧ back.board = world.board := by
  have hshape : back.board.map List.length = world.board.map List.length :=
    R'.shape.trans R.shape
  by_cases hsame : moved.newX = column ∧ moved.newY = row
  · -- It did not leave its tile, and neither does it now.
    obtain ⟨hnone, hcarried⟩ := R.carried (.inr hsame)
    obtain ⟨hnone', hcarried'⟩ := R'.carried (.inr ⟨hback.1.trans hsame.1.symm,
      hback.2.trans hsame.2.symm⟩)
    rw [hsame.1, hsame.2] at hcarried hcarried'
    rw [hback.1, hback.2] at hcarried'
    have hstay := hcarried.tile?_eq S.shown
    have hstay' := hcarried'.tile?_eq ((hstay column row).trans S.shown)
    exact ⟨hnone'.trans hnone.symm,
      Board.ext_tile? hshape fun c r => (hstay' c r).trans (hstay c r)⟩
  · have hother : ¬(moved'.newX = moved.newX ∧ moved'.newY = moved.newY) := by
      rw [hback.1, hback.2]
      exact fun h => hsame ⟨h.1.symm, h.2.symm⟩
    obtain ⟨hswapped, hreturn⟩ := R'.swapped hswap' hother
    rw [hback.1, hback.2] at hswapped hreturn
    by_cases hswap : swap.truthy = true
    · obtain ⟨htarget, hgo⟩ := R.swapped hswap hsame
      obtain ⟨hthose, htiles⟩ :=
        Board.Swapped.restored S.shown hsame hreturn hswapped htarget hgo
      exact ⟨hthose, Board.ext_tile? hshape htiles⟩
    · obtain ⟨hnone, hgo⟩ := R.carried (.inl (by simpa using hswap))
      obtain ⟨hthose, htiles⟩ := hgo.restored hnodup S.shown hsame hreturn hswapped
      exact ⟨hthose.trans hnone.symm, Board.ext_tile? hshape htiles⟩

/-- An object that was swapped stood on the new tile of the mover. -/
theorem standsAt_of_isAmong (R : world.Relocated key name column row state swap after moved)
    (H : world.Consistent) {entry : Scalar × TileObject} (hentry : entry ∈ world.objects.entries)
    (hamong : entry.1.isAmong moved.swapped = true) :
    entry.2.StandsAt moved.newX moved.newY := by
  obtain ⟨text, htext, -⟩ := (H.ids entry hentry).1.exists_name
  have hmem := (Scalar.isAmong_iff htext).mp hamong
  rcases R.carried_or_swapped with ⟨hnone, -⟩ | ⟨htarget, -⟩
  · rw [hnone] at hmem
    cases hmem
  · exact H.standsAt_of_mem hentry htext htarget hmem

/-- Every object of a tile is where the mover finds it, so that all places are restored with the
board. -/
theorem places_restored (R : world.Relocated key name column row state swap after moved)
    (R' : after.Relocated key name moved.newX moved.newY state' swap' back moved')
    (S : world.Standing key name object column row [name]) (H : world.Consistent)
    (hswap' : swap'.truthy = true) (hback : moved'.newX = column ∧ moved'.newY = row) :
    back.objects.entries.map (fun entry => (entry.1, entry.2.x, entry.2.y)) =
      world.objects.entries.map fun entry => (entry.1, entry.2.x, entry.2.y) := by
  have hswapped := (R.board_restored R' S H.nodup hswap' hback).1
  rw [R'.records, R.records, List.map_map, List.map_map]
  apply List.map_congr_left
  intro entry hentry
  by_cases heq : entry.1 = key
  · have hobject : entry.2 = object := H.regular.keyed.unique (heq ▸ hentry) S.recorded
    simp [Moved.record, heq, hobject, hback, S.place.1, S.place.2]
  · by_cases hamong : entry.1.isAmong moved.swapped = true
    · have hplace := R.standsAt_of_isAmong H hentry hamong
      simp [Moved.record, heq, hswapped, hamong, R'.origin, hplace.1, hplace.2]
    · simp [Moved.record, heq, hswapped, hamong]

end Relocated

/-! ## Successful moves -/

/-- From a place, the direction and the coordinates of a move lead to another place: a step in the
direction, if there is one, and given coordinates in its stead. -/
def Leads (direction x y : Scalar) (column row column' row' : ℕ) : Prop :=
  ∃ step : ℤ × ℤ,
    (if direction.truthy then directionStep? direction = some step else step = (0, 0)) ∧
    Scalar.gridTile? (if x = .null then .int (column + step.1) else x)
      (if y = .null then .int (row + step.2) else y) = .ok (some (column', row'))

section

variable {key id direction x y state swap : Scalar} {name : String} {object : TileObject}
  {column row column' row' : ℕ} {tile : Tile} {after : World} {moved : Moved}

theorem leads_iff (hplace : object.StandsAt column row) :
    Leads direction x y column row column' row' ↔
      ∃ target, targetPosition object direction x y = .ok target ∧
        Scalar.gridTile? target.1 target.2 = .ok (some (column', row')) := by
  rw [Leads, targetPosition]
  by_cases htruthy : direction.truthy = true
  · cases hstep : directionStep? direction with
    | none =>
      simp only [htruthy, if_true, reduceCtorEq, false_and, exists_false, false_iff]
      rintro ⟨target, htarget, -⟩
      cases htarget
    | some step =>
      simp only [htruthy, if_true, hplace.1, hplace.2]
      constructor
      · rintro ⟨step', hstep', hgrid⟩
        obtain rfl := Option.some.inj hstep'
        exact ⟨_, rfl, hgrid⟩
      · rintro ⟨target, htarget, hgrid⟩
        obtain rfl := Except.ok.inj htarget
        exact ⟨step, rfl, hgrid⟩
  · simp only [htruthy, hplace.1, hplace.2]
    constructor
    · rintro ⟨step, rfl, hgrid⟩
      exact ⟨_, rfl, by simpa using hgrid⟩
    · rintro ⟨target, htarget, hgrid⟩
      obtain rfl := Except.ok.inj htarget
      exact ⟨(0, 0), rfl, by simpa using hgrid⟩

/-- A move that succeeds has passed its checks. -/
theorem exists_planMove_of_move
    (h : world.move id direction x y state swap = (after, .ok moved)) :
    ∃ journey, world.planMove id direction x y = .ok journey := by
  cases hplan : world.planMove id direction x y with
  | error fault =>
    rw [World.move, hplan] at h
    cases h
  | ok journey => exact ⟨journey, rfl⟩

/-- A successful move of an object that stands on a tile. -/
theorem Standing.relocated (S : world.Standing key name object column row tile)
    (H : world.Regular) (hnodup : world.board.flatten.flatten.Nodup)
    (hid : requireId "move" id = .ok key)
    (h : world.move id direction x y state swap = (after, .ok moved)) :
    Scalar.gridTile? (.int column) (.int row) = .ok (some (column, row)) ∧
      Leads direction x y column row moved.newX moved.newY ∧
      world.Relocated key name column row state swap after moved := by
  obtain ⟨journey, hplan⟩ := exists_planMove_of_move h
  obtain ⟨hstart, target, column', row', htarget, hgrid, hinside, rfl⟩ :=
    S.planMove_eq_ok H hid hplan
  obtain ⟨after', moved', hmove, rfl, rfl, R⟩ :=
    S.exists_relocated H hnodup hplan hinside state swap
  rw [hmove] at h
  cases h
  exact ⟨hstart, (leads_iff S.place).mpr ⟨target, htarget, hgrid⟩, R⟩

/-- A move that leads to a tile of the board succeeds. -/
theorem Standing.exists_relocated_of_leads (S : world.Standing key name object column row tile)
    (H : world.Regular) (hnodup : world.board.flatten.flatten.Nodup)
    (hid : requireId "move" id = .ok key)
    (hstart : Scalar.gridTile? (.int column) (.int row) = .ok (some (column, row)))
    (hleads : Leads direction x y column row column' row')
    (hinside : (world.board.tile? column' row').isSome = true) (state swap : Scalar) :
    ∃ after moved, world.move id direction x y state swap = (after, .ok moved) ∧
      moved.newX = column' ∧ moved.newY = row' ∧
      world.Relocated key name column row state swap after moved := by
  obtain ⟨target, htarget, hgrid⟩ := (leads_iff S.place).mp hleads
  exact S.exists_relocated H hnodup (S.planMove_of_target H hid hstart htarget hgrid hinside)
    hinside state swap

/-- A move that succeeds is that of an object on the board. -/
theorem Consistent.exists_relocated (H : world.Consistent)
    (h : world.move id direction x y state swap = (after, .ok moved)) :
    requireId "move" id = .ok id.normalize ∧
      ∃ name object column row tile,
        world.Standing id.normalize name object column row tile ∧
        Scalar.gridTile? (.int column) (.int row) = .ok (some (column, row)) ∧
        Leads direction x y column row moved.newX moved.newY ∧
        world.Relocated id.normalize name column row state swap after moved := by
  obtain ⟨journey, hplan⟩ := exists_planMove_of_move h
  obtain ⟨key, object, hid, hget⟩ := exists_of_planMove hplan
  obtain rfl : id.normalize = key := (Scalar.requireId_eq_ok_iff.mp hid).2
  have hobject :=
    (H.regular.keyed.get?_eq_some_iff Scalar.exact_isId (Scalar.isId_of_requireId hid)).mp hget
  obtain ⟨name, column, row, tile, S⟩ := H.exists_standing hobject
  exact ⟨hid, name, object, column, row, tile, S, S.relocated H.regular H.nodup hid h⟩

end

/-- The board is that of another world, and so are the places of all objects. -/
def PlacedAs (world other : World) : Prop :=
  world.board = other.board ∧
    world.objects.entries.map (fun entry => (entry.1, entry.2.x, entry.2.y)) =
      other.objects.entries.map fun entry => (entry.1, entry.2.x, entry.2.y)

/-- **What moving does.** On a consistent world, let a move succeed. The mover is the object of the
id and stands on a tile, and the direction and the coordinates lead from there to the new place.
Without a swap, or if that is where it stands, its text is taken off its tile and comes on top of
the new one; with a swap it has the new tile for itself, and the texts that were there come to the
old one in their order. The records of the mover and of those that were swapped follow, and nothing
else changes. If the mover was alone on its tile, a second move with a swap that leads back there
succeeds and puts every object where it was. -/
theorem move_exact (H : world.Consistent) {id direction x y state swap : Scalar} {after : World}
    {moved : Moved} (h : world.move id direction x y state swap = (after, .ok moved)) :
    ∃ name object column row tile,
      world.Standing id.normalize name object column row tile ∧
      Leads direction x y column row moved.newX moved.newY ∧
      world.Relocated id.normalize name column row state swap after moved ∧
      after.objects.keys = world.objects.keys ∧
      Leads .null (.int column) (.int row) moved.newX moved.newY column row ∧
      (tile = [name] → ∀ direction' x' y' state' swap' : Scalar, swap'.truthy = true →
        Leads direction' x' y' moved.newX moved.newY column row →
        ∃ back moved', after.move id direction' x' y' state' swap' = (back, .ok moved') ∧
          back.PlacedAs world) := by
  obtain ⟨hid, name, object, column, row, tile, S, hstart, hleads, R⟩ := H.exists_relocated h
  have hreturn : Leads .null (.int column) (.int row) moved.newX moved.newY column row :=
    ⟨(0, 0), rfl, hstart⟩
  refine ⟨name, object, column, row, tile, S, hleads, R, R.keys, hreturn, ?_⟩
  rintro rfl direction' x' y' state' swap' hswap' hleads'
  -- The world after the move is regular, which is all that the way back depends on.
  obtain ⟨tile', S'⟩ := R.exists_standing S
  have hnodup' : after.board.flatten.flatten.Nodup := R.texts.nodup_iff.mpr H.nodup
  have hinside' : (after.board.tile? column row).isSome = true := by
    rw [R.isSome_tile?, S.shown]
    rfl
  obtain ⟨_, -, hgrid⟩ := hleads
  obtain ⟨back, moved', hback, hx, hy, R'⟩ := S'.exists_relocated_of_leads (R.regular H.regular)
    hnodup' hid (Scalar.gridTile?_int hgrid) hleads' hinside' state' swap'
  exact ⟨back, moved', hback, (R.board_restored R' S H.nodup hswap' ⟨hx, hy⟩).2,
    R.places_restored R' S H hswap' ⟨hx, hy⟩⟩

/-- A change is known to succeed if a part of its result is known. -/
theorem exists_of_map_eq_ok {α β : Type} {outcome : Outcome α} {part : α → β} {b : β}
    (h : outcome.2.map part = .ok b) : ∃ after a, outcome = (after, .ok a) ∧ part a = b := by
  obtain ⟨after, result⟩ := outcome
  cases result with
  | error fault => cases h
  | ok a => exact ⟨after, a, rfl, Except.ok.inj h⟩

/-- An object changes places with the two others on a tile, and comes back. -/
theorem move_exact_crowded : crowdedWorld.Consistent ∧
    ∃ after moved back moved',
      crowdedWorld.move (.int 1) "right" .null .null .null (.bool true) = (after, .ok moved) ∧
      moved.swapped = ["2", "3"] ∧
      after.board.tile? 0 0 = some ["2", "3"] ∧ after.board.tile? 1 0 = some ["1"] ∧
      after.move (.int 1) "left" .null .null (.int 7) (.bool true) = (back, .ok moved') ∧
      back.PlacedAs crowdedWorld := by
  have hparts : (crowdedWorld.move (.int 1) "right" .null .null .null (.bool true)).2.map
      (fun moved => (moved.newX, moved.newY, moved.swapped)) = .ok (1, 0, ["2", "3"]) := by
    decide +kernel
  obtain ⟨after, moved, hmove, hparts⟩ := exists_of_map_eq_ok hparts
  obtain ⟨hx, hy, hswapped⟩ : moved.newX = 1 ∧ moved.newY = 0 ∧ moved.swapped = ["2", "3"] := by
    simpa using hparts
  obtain ⟨name, object, column, row, tile, S, -, R, -, -, hreturn⟩ :=
    move_exact consistent_crowdedWorld hmove
  -- The mover is the first object, alone on the first tile.
  have hname : (Scalar.int 1).display? = some "1" := by decide +kernel
  obtain rfl : "1" = name := Option.some.inj (hname.symm.trans S.text)
  have hobject : crowdedWorld.objects.get? (.int 1) = some ⟨.int 1, .int 0, .int 0, .int 0⟩ := by
    decide +kernel
  have hregular := consistent_crowdedWorld.regular
  have hrecorded := (hregular.keyed.get?_eq_some_iff Scalar.exact_isId
    (hregular.keyed.admitted _ S.recorded)).mp hobject
  obtain rfl := hregular.keyed.unique hrecorded S.recorded
  obtain ⟨rfl, rfl⟩ : 0 = column ∧ 0 = row := TileObject.StandsAt.unique ⟨rfl, rfl⟩ S.place
  have hshown := S.shown
  rw [board_crowdedWorld] at hshown
  obtain rfl : ["1"] = tile := Option.some.inj hshown
  have hleft : Leads "left" .null .null moved.newX moved.newY 0 0 := by
    have hgrid : Scalar.gridTile? (.int 0) (.int 0) = .ok (some (0, 0)) := by decide +kernel
    rw [hx, hy]
    exact ⟨(-1, 0), rfl, hgrid⟩
  obtain ⟨back, moved', hback, hplaced⟩ :=
    hreturn rfl "left" .null .null (.int 7) (.bool true) rfl hleft
  obtain ⟨-, hboard⟩ := R.swapped rfl (by simp [hx])
  rw [hx, hy, hswapped] at hboard
  refine ⟨consistent_crowdedWorld, after, moved, back, moved', hmove, hswapped, ?_, ?_, hback,
    hplaced⟩
  · rw [hboard, board_crowdedWorld]
    rfl
  · rw [hboard, board_crowdedWorld]
    rfl

end World

end TileScript
