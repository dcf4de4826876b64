import TileScript.Proofs.World.Edits

/-!
# What spawning does

Spawning gives an object a tile of its own. Whatever else stood there is removed with its record,
the object is taken off every other tile, and its record is put in order. The texts on a board are
those of ids, and an id and its text determine each other, so that exactly the records of the texts
that left the board go with them.

Two objects that are spawned on two tiles do not get in each other's way. If one of them stood on
the tile of the other it is removed in one order and moved in the other order, and is where it was
spawned in the end.

## Main definitions

* `Scalar.isAmong`: the text of an id is one of the given texts.
* `World.Spawned`: what spawning makes of a world.

## Main statements

* `World.spawn_exact`: spawning an id inside the board does that, and nothing else.
* `World.spawn_comm`: two objects can be spawned on two tiles in either order.
-/

namespace TileScript

/-! ## Ids and their texts -/

/-- Whether the text of an id is one of the given texts. -/
def Scalar.isAmong (names : List String) (id : Scalar) : Bool := id.display?.any names.contains

namespace Scalar

variable {id : Scalar} {name : String}

@[simp] theorem isAmong_nil (id : Scalar) : id.isAmong [] = false := by
  cases h : id.display? <;> simp [isAmong, h]

theorem isAmong_iff {names : List String} (h : id.display? = some name) :
    id.isAmong names = true ↔ name ∈ names := by
  simp [isAmong, h]

/-- An id is the only one with its text. -/
theorem text_eq_iff {other : Scalar} {text : String} (hid : IsId id) (hother : IsId other)
    (htext : id.display? = some text) (hname : other.display? = some name) :
    text = name ↔ id = other := by
  constructor
  · rintro rfl
    exact hid.eq_of_display? hother htext hname
  · rintro rfl
    exact Option.some.inj (htext.symm.trans hname)

theorem isAmong_cons {other : Scalar} (hid : IsId id) (hother : IsId other)
    (hname : other.display? = some name) (names : List String) :
    id.isAmong (name :: names) = (decide (id = other) || id.isAmong names) := by
  obtain ⟨text, htext, -⟩ := hid.exists_name
  have heq := text_eq_iff hid hother htext hname
  rw [Bool.eq_iff_iff, Bool.or_eq_true, decide_eq_true_eq, isAmong_iff htext, isAmong_iff htext,
    List.mem_cons, heq]

theorem isAmong_filter {other : Scalar} (hid : IsId id) (hother : IsId other)
    (hname : other.display? = some name) (names : List String) :
    id.isAmong (names.filter (· != name)) = (decide (id ≠ other) && id.isAmong names) := by
  obtain ⟨text, htext, -⟩ := hid.exists_name
  have hne : text ≠ name ↔ id ≠ other := not_congr (text_eq_iff hid hother htext hname)
  rw [Bool.eq_iff_iff, Bool.and_eq_true, decide_eq_true_eq, isAmong_iff htext, isAmong_iff htext,
    List.mem_filter, bne_iff_ne, hne, and_comm]

end Scalar

namespace World

variable {world : World}

/-- Removing the records of the texts of ids keeps the others, in their order. -/
theorem evict_eq {objects : Table Scalar TileObject} (H : objects.Keyed Scalar.IsId)
    {names : List String}
    (hnames : ∀ name ∈ names, ∃ id : Scalar, id.IsId ∧ id.display? = some name) :
    evict objects names =
      (⟨objects.entries.filter fun entry => !entry.1.isAmong names⟩, .ok ()) := by
  induction names generalizing objects with
  | nil => simp [evict]
  | cons name names ih =>
    obtain ⟨⟨id, hid, hname⟩, hrest⟩ := List.forall_mem_cons.mp hnames
    obtain ⟨name', hname', hparse⟩ := hid.exists_name
    obtain rfl : name' = name := Option.some.inj (hname'.symm.trans hname)
    rw [evict, hparse]
    simp only
    rw [ih H.erase hrest, H.entries_erase Scalar.exact_isId hid, List.filter_filter]
    congr 2
    apply List.filter_congr
    intro entry hentry
    simp [Scalar.isAmong_cons (H.admitted entry hentry) hid hname, Bool.and_comm]

/-! ## Spawning -/

/-- The record of a placed object. -/
def Placement.record (plan : Placement) (state : Scalar) : TileObject :=
  ⟨plan.id, .int plan.column, .int plan.row, state.normalize⟩

/-- What spawning makes of a world, and the texts that it removes. -/
structure Spawned (world : World) (plan : Placement) (state : Scalar) (after : World)
    (evicted : List String) : Prop where
  /-- Only the board and the records change. -/
  frame : after = { world with board := after.board, objects := after.objects }
  /-- The rows of the board are as long as before. -/
  shape : after.board.map List.length = world.board.map List.length
  /-- The object has its tile for itself. -/
  alone : after.board.tile? plan.column plan.row = some [plan.name]
  /-- The other tiles are as before, without the text of the object. -/
  elsewhere : ∀ column row, ¬(column = plan.column ∧ row = plan.row) →
    after.board.tile? column row =
      (world.board.tile? column row).map (·.filter (· != plan.name))
  /-- What is removed is what else stood on the tile. -/
  removed : (world.board.tile? plan.column plan.row).map (·.filter (· != plan.name)) = some evicted
  /-- The keys are those before, without the removed ones and in their order. That of the object
  keeps its place if it was among them, and is the last otherwise. -/
  keys : after.objects.keys =
    let kept := world.objects.keys.filter fun key => !key.isAmong evicted
    if plan.id ∈ world.objects.keys then kept else kept ++ [plan.id]
  /-- The object has its new record, and the others that are left have the records they had. -/
  records : ∀ entry, entry ∈ after.objects.entries ↔
    entry = (plan.id, plan.record state) ∨
      entry ∈ world.objects.entries ∧ entry.1 ≠ plan.id ∧ entry.1.isAmong evicted = false

/-- An id inside the board passes the checks of spawning. -/
theorem planSpawn_of_locate {id x y key : Scalar} {name : String} {column row : ℕ}
    (hid : requireId "spawn" id = .ok key) (hname : key.display? = some name)
    (hplace : world.board.locate x y = .ok (some (column, row))) :
    world.planSpawn id x y = .ok ⟨key, name, column, row⟩ := by
  obtain ⟨index?, hgrid, hindex⟩ := bind_eq_ok_iff.mp hplace
  refine bind_eq_ok hid (bind_eq_ok hgrid ?_)
  cases index? with
  | none => cases hindex
  | some index =>
    have hlocate : world.board.locateIndex? index.1 index.2 = some (column, row) :=
      Except.ok.inj hindex
    simp only [hlocate]
    exact bind_eq_ok (Scalar.line_of_display? hname) rfl

/-- The records that are left when those of the given texts are removed. -/
def recordsWithout (world : World) (names : List String) : Table Scalar TileObject :=
  ⟨world.objects.entries.filter fun entry => !entry.1.isAmong names⟩

theorem keys_recordsWithout (world : World) (names : List String) :
    (world.recordsWithout names).keys =
      world.objects.keys.filter fun key => !key.isAmong names := by
  rw [Table.keys, Table.keys, List.filter_map]
  rfl

/-- A checked placement is carried out. -/
theorem Regular.spawn_eq (H : world.Regular) {id x y : Scalar} {plan : Placement}
    (hplan : world.planSpawn id x y = .ok plan) {tile : Tile}
    (htile : world.board.tile? plan.column plan.row = some tile) (state : Scalar) :
    world.spawn id x y state =
      ({ world with
          board := (world.board.scrub plan.name).modifyTile plan.column plan.row
            fun _ => [plan.name]
          objects := (world.recordsWithout (tile.filter (· != plan.name))).insert plan.id
            (plan.record state) },
        .ok (tile.filter (· != plan.name))) := by
  have hscrub : (world.board.scrub plan.name).tile? plan.column plan.row =
      some (tile.filter (· != plan.name)) := by
    rw [Board.tile?_scrub, htile, Option.map_some]
  have hnames : ∀ name ∈ tile.filter (· != plan.name),
      ∃ id : Scalar, id.IsId ∧ id.display? = some name := by
    intro name hname
    apply H.names
    exact Board.mem_flatten_iff.mpr ⟨_, _, _, htile, List.mem_of_mem_filter hname⟩
  rw [World.spawn, hplan]
  simp only [hscrub, evict_eq H.keyed hnames]
  rfl

/-- A checked placement does what spawning should do. -/
theorem Regular.exists_spawned (H : world.Regular) {id x y : Scalar} {plan : Placement}
    (hplan : world.planSpawn id x y = .ok plan) (state : Scalar) :
    ∃ after evicted, world.spawn id x y state = (after, .ok evicted) ∧
      world.Spawned plan state after evicted := by
  obtain ⟨columns, rows, hboard⟩ := H.rectangle
  obtain ⟨hid, -, hname, -, hinside⟩ := planSpawn_eq_ok hboard hplan
  obtain ⟨tile, htile⟩ := Option.isSome_iff_exists.mp hinside
  refine ⟨_, _, H.spawn_eq hplan htile state, ?_⟩
  have Hkept : (world.recordsWithout (tile.filter (· != plan.name))).Keyed Scalar.IsId :=
    H.keyed.of_sublist List.filter_sublist
  -- The object is none of those that it removes.
  have hstays : plan.id.isAmong (tile.filter (· != plan.name)) = false := by
    rw [Bool.eq_false_iff, Ne, Scalar.isAmong_iff hname]
    simp
  constructor
  case frame => rfl
  case shape => simp
  case alone => simp [Board.tile?_modifyTile, Board.tile?_scrub, htile]
  case elsewhere =>
    intro column row hother
    rw [Board.tile?_modifyTile, if_neg hother, Board.tile?_scrub]
  case removed => rw [htile, Option.map_some]
  case keys =>
    simp only [Hkept.keys_insert Scalar.exact_isId hid, keys_recordsWithout, List.mem_filter,
      hstays, Bool.not_false, and_true]
  case records =>
    intro entry
    rw [Hkept.mem_insert Scalar.exact_isId hid, recordsWithout, List.mem_filter, Bool.not_eq_true',
      and_assoc, and_comm (b := entry.1 ≠ plan.id)]

/-- **What spawning does.** On a consistent world, let a value be taken for an id and be spawned
inside the board. This succeeds. Its tile then holds its text alone, and the other tiles hold what
they held without that text; what else stood on its tile is returned and has lost its records; the
other records are as before and in the same order, and that of the id has the place and the state
that were given, where it was if there was one and after all others if not. -/
theorem spawn_exact (H : world.Consistent) {id x y key : Scalar}
    (hid : requireId "spawn" id = .ok key) {column row : ℕ}
    (hplace : world.board.locate x y = .ok (some (column, row))) (state : Scalar) :
    ∃ name after evicted, key.display? = some name ∧
      world.spawn id x y state = (after, .ok evicted) ∧
      world.Spawned ⟨key, name, column, row⟩ state after evicted := by
  obtain ⟨name, hname, -⟩ := (Scalar.isId_of_requireId hid).exists_name
  obtain ⟨after, evicted, hspawn, hspawned⟩ :=
    H.regular.exists_spawned (planSpawn_of_locate hid hname hplace) state
  exact ⟨name, after, evicted, hname, hspawn, hspawned⟩

/-- One object on the first of three tiles, and two on the second. -/
def crowdedWorld : World :=
  [Edit.resize (.int 3) (.int 1), .spawn (.int 1) (.int 0) (.int 0) (.int 0),
    .spawn (.int 2) (.int 1) (.int 0) (.int 0), .spawn (.int 3) (.int 2) (.int 0) (.int 0),
    .move (.int 3) (.text "left") .null .null .null (.bool false)].foldl edit .empty

theorem consistent_crowdedWorld : crowdedWorld.Consistent := (sound_empty.edits _).consistent

theorem board_crowdedWorld : crowdedWorld.board = [[["1"], ["2", "3"], []]] := by decide +kernel

/-- The first object takes the tile of the two others. -/
theorem spawn_exact_crowded : crowdedWorld.Consistent ∧
    requireId "spawn" (.int 1) = .ok (.int 1) ∧
    crowdedWorld.board.locate (.int 1) (.int 0) = .ok (some (1, 0)) ∧
    ∃ after, crowdedWorld.spawn (.int 1) (.int 1) (.int 0) (.int 7) = (after, .ok ["2", "3"]) ∧
      crowdedWorld.Spawned ⟨.int 1, "1", 1, 0⟩ (.int 7) after ["2", "3"] := by
  have hid : requireId "spawn" (.int 1) = .ok (.int 1) := by decide +kernel
  have hplace : crowdedWorld.board.locate (.int 1) (.int 0) = .ok (some (1, 0)) := by
    decide +kernel
  obtain ⟨name, after, evicted, hname, hspawn, hspawned⟩ :=
    spawn_exact consistent_crowdedWorld hid hplace (.int 7)
  have htext : (Scalar.int 1).display? = some "1" := by decide +kernel
  obtain rfl : "1" = name := Option.some.inj (htext.symm.trans hname)
  have hremoved := hspawned.removed
  rw [board_crowdedWorld] at hremoved
  obtain rfl : ["2", "3"] = evicted := Option.some.inj hremoved
  exact ⟨consistent_crowdedWorld, hid, hplace, after, hspawn, hspawned⟩

/-! ## Two objects -/

namespace Spawned

variable {plan plan' : Placement} {state state' : Scalar} {after after' : World}
  {evicted evicted' : List String}

/-- The texts on the board are those that were there, and that of the object. -/
theorem names (S : world.Spawned plan state after evicted) {name : String}
    (hname : name ∈ after.board.flatten.flatten) :
    name = plan.name ∨ name ∈ world.board.flatten.flatten := by
  obtain ⟨column, row, tile, htile, hname⟩ := Board.mem_flatten_iff.mp hname
  by_cases hplace : column = plan.column ∧ row = plan.row
  · obtain ⟨rfl, rfl⟩ := hplace
    obtain rfl := Option.some.inj (S.alone.symm.trans htile)
    exact .inl (List.mem_singleton.mp hname)
  · rw [S.elsewhere column row hplace, Option.map_eq_some_iff] at htile
    obtain ⟨old, hold, rfl⟩ := htile
    exact .inr (Board.mem_flatten_iff.mpr ⟨column, row, old, hold, List.mem_of_mem_filter hname⟩)

theorem keyed (S : world.Spawned plan state after evicted)
    (H : world.objects.Keyed Scalar.IsId) (hid : plan.id.IsId) :
    after.objects.Keyed Scalar.IsId := by
  constructor
  · intro entry hentry
    rcases (S.records entry).mp hentry with rfl | ⟨hentry, -⟩
    · exact hid
    · exact H.admitted entry hentry
  · rw [S.keys]
    have hkept := H.nodup.filter fun key => !key.isAmong evicted
    split
    · exact hkept
    · next hnew =>
      refine hkept.append (List.nodup_singleton _) ?_
      simp only [List.disjoint_singleton]
      exact fun hmem => hnew (List.mem_of_mem_filter hmem)

/-- Spawning an id keeps a world regular. -/
theorem regular (S : world.Spawned plan state after evicted) (H : world.Regular)
    (hid : plan.id.IsId) (hname : plan.id.display? = some plan.name) : after.Regular where
  rectangle := by
    obtain ⟨columns, rows, hboard⟩ := H.rectangle
    exact ⟨columns, rows, hboard.of_map_length S.shape⟩
  keyed := S.keyed H.keyed hid
  names name hmem := by
    rcases S.names hmem with rfl | hmem
    · exact ⟨plan.id, hid, hname⟩
    · exact H.names name hmem

variable (S : world.Spawned plan state after evicted)
  (S' : after.Spawned plan' state' after' evicted')
  (hapart : ¬(plan.column = plan'.column ∧ plan.row = plan'.row))
include S S' hapart

/-- The board after two objects are spawned on two tiles. -/
theorem tile?_twice (hname : plan.name ≠ plan'.name) (column row : ℕ) :
    after'.board.tile? column row =
      if column = plan.column ∧ row = plan.row then some [plan.name]
      else if column = plan'.column ∧ row = plan'.row then some [plan'.name]
      else (world.board.tile? column row).map
        (·.filter fun name => name != plan.name && name != plan'.name) := by
  by_cases hplace : column = plan.column ∧ row = plan.row
  · obtain ⟨rfl, rfl⟩ := hplace
    rw [S'.elsewhere _ _ hapart, S.alone]
    simp [hname]
  · by_cases hplace' : column = plan'.column ∧ row = plan'.row
    · rw [if_neg hplace, if_pos hplace', hplace'.1, hplace'.2, S'.alone]
    · rw [if_neg hplace, if_neg hplace', S'.elsewhere _ _ hplace', S.elsewhere _ _ hplace]
      simp [Function.comp_def, List.filter_filter, Bool.and_comm]

/-- The records after two objects are spawned on two tiles. -/
theorem records_twice (H : world.Regular) (hid : plan.id.IsId) (hid' : plan'.id.IsId)
    (hname : plan.id.display? = some plan.name) (hname' : plan'.id.display? = some plan'.name)
    (hne : plan.id ≠ plan'.id) (entry : Scalar × TileObject) :
    entry ∈ after'.objects.entries ↔
      entry = (plan.id, plan.record state) ∨ entry = (plan'.id, plan'.record state') ∨
      entry ∈ world.objects.entries ∧ entry.1 ≠ plan.id ∧ entry.1 ≠ plan'.id ∧
        (∀ tile, world.board.tile? plan.column plan.row = some tile →
          entry.1.isAmong tile = false) ∧
        ∀ tile, world.board.tile? plan'.column plan'.row = some tile →
          entry.1.isAmong tile = false := by
  have hapart' : ¬(plan'.column = plan.column ∧ plan'.row = plan.row) :=
    fun h => hapart ⟨h.1.symm, h.2.symm⟩
  obtain ⟨tile, htile, rfl⟩ := Option.map_eq_some_iff.mp S.removed
  have hremoved := S'.removed
  rw [S.elsewhere _ _ hapart'] at hremoved
  obtain ⟨_, hscrubbed, rfl⟩ := Option.map_eq_some_iff.mp hremoved
  obtain ⟨tile', htile', rfl⟩ := Option.map_eq_some_iff.mp hscrubbed
  have hfirst : ∀ id : Scalar, id.IsId →
      id.isAmong (tile.filter (· != plan.name)) = (decide (id ≠ plan.id) && id.isAmong tile) :=
    fun id h => Scalar.isAmong_filter h hid hname tile
  have hsecond : ∀ id : Scalar, id.IsId →
      id.isAmong ((tile'.filter (· != plan.name)).filter (· != plan'.name)) =
        (decide (id ≠ plan'.id) && (decide (id ≠ plan.id) && id.isAmong tile')) := by
    intro id h
    rw [Scalar.isAmong_filter h hid' hname', Scalar.isAmong_filter h hid hname]
  rw [S'.records, S.records]
  simp only [htile, htile', Option.some.injEq, forall_eq']
  constructor
  · rintro (rfl | ⟨rfl | ⟨hentry, hother, hkept⟩, hother', hkept'⟩)
    · exact .inr (.inl rfl)
    · exact .inl rfl
    · have hkey := H.keyed.admitted entry hentry
      simp_all
  · rintro (rfl | rfl | ⟨hentry, hother, hother', hkept, hkept'⟩)
    · simp_all
    · exact .inl rfl
    · have hkey := H.keyed.admitted entry hentry
      simp_all

end Spawned

/-- Spawning with the given values succeeds and makes one world of the other. -/
def Spawns (world : World) (id x y state : Scalar) (after : World) : Prop :=
  ∃ evicted, world.spawn id x y state = (after, .ok evicted)

/-- A second object is spawned where it could have been spawned at first. -/
theorem Regular.exists_spawned_twice (H : world.Regular) {a b x y x' y' : Scalar}
    {plan : Placement} (plan' : Placement) (hplan : world.planSpawn a x y = .ok plan)
    (hid : plan.id.IsId) (hname : plan.id.display? = some plan.name)
    (hb : requireId "spawn" b = .ok plan'.id) (hname' : plan'.id.display? = some plan'.name)
    (hplace' : world.board.locate x' y' = .ok (some (plan'.column, plan'.row)))
    (state state' : Scalar) :
    ∃ first second evicted evicted', world.Spawns a x y state first ∧
      first.Spawns b x' y' state' second ∧ world.Spawned plan state first evicted ∧
      first.Spawned plan' state' second evicted' := by
  obtain ⟨first, evicted, hfirst, S⟩ := H.exists_spawned hplan state
  have hplan' : first.planSpawn b x' y' = .ok plan' :=
    planSpawn_of_locate hb hname' (by rw [Board.locate_congr S.shape, hplace'])
  obtain ⟨second, evicted', hsecond, S'⟩ :=
    (S.regular H hid hname).exists_spawned hplan' state'
  exact ⟨first, second, evicted, evicted', ⟨evicted, hfirst⟩, ⟨evicted', hsecond⟩, S, S'⟩

/-- **Two objects can be spawned on two tiles in either order.** On a consistent world, let two
different ids be spawned inside the board on two different tiles, with any states. Both succeed in
both orders, and the board and the records are the same in the end, whatever stood on the two tiles
before; only the order of the records may differ. -/
theorem spawn_comm (H : world.Consistent) {a b x y x' y' key key' : Scalar}
    (ha : requireId "spawn" a = .ok key) (hb : requireId "spawn" b = .ok key') (hne : key ≠ key')
    {column row column' row' : ℕ} (hplace : world.board.locate x y = .ok (some (column, row)))
    (hplace' : world.board.locate x' y' = .ok (some (column', row')))
    (hapart : ¬(column = column' ∧ row = row')) (state state' : Scalar) :
    ∃ first second first' second' : World,
      world.Spawns a x y state first ∧ first.Spawns b x' y' state' second ∧
      world.Spawns b x' y' state' first' ∧ first'.Spawns a x y state second' ∧
      second.board = second'.board ∧
      second.objects.entries.Perm second'.objects.entries := by
  have hapart' : ¬(column' = column ∧ row' = row) := fun h => hapart ⟨h.1.symm, h.2.symm⟩
  have hid := Scalar.isId_of_requireId ha
  have hid' := Scalar.isId_of_requireId hb
  obtain ⟨name, hname, -⟩ := hid.exists_name
  obtain ⟨name', hname', -⟩ := hid'.exists_name
  have hnames : name ≠ name' := mt (Scalar.text_eq_iff hid hid' hname hname').mp hne
  have hplan := planSpawn_of_locate ha hname hplace
  have hplan' := planSpawn_of_locate hb hname' hplace'
  obtain ⟨first, second, evicted, evicted', hfirst, hsecond, S, S'⟩ :=
    H.regular.exists_spawned_twice ⟨key', name', column', row'⟩ hplan hid hname hb hname'
      hplace' state state'
  obtain ⟨first', second', _, _, hfirst', hsecond', T, T'⟩ :=
    H.regular.exists_spawned_twice ⟨key, name, column, row⟩ hplan' hid' hname' ha hname
      hplace state' state
  refine ⟨first, second, first', second', hfirst, hsecond, hfirst', hsecond', ?_, ?_⟩
  · apply Board.ext_tile?
    · rw [S'.shape, S.shape, T'.shape, T.shape]
    · intro c r
      rw [S.tile?_twice S' hapart hnames, T.tile?_twice T' hapart' hnames.symm]
      by_cases hc : c = column ∧ r = row
      · simp [hc, hapart]
      · simp [hc, Bool.and_comm]
  · have Hsecond := S'.keyed (S.keyed H.regular.keyed hid) hid'
    have Hsecond' := T'.keyed (T.keyed H.regular.keyed hid') hid
    refine (List.perm_ext_iff_of_nodup (.of_map _ Hsecond.nodup) (.of_map _ Hsecond'.nodup)).mpr ?_
    intro entry
    rw [S.records_twice S' hapart H.regular hid hid' hname hname' hne,
      T.records_twice T' hapart' H.regular hid' hid hname' hname hne.symm, or_left_comm]
    apply or_congr_right
    apply or_congr_right
    apply and_congr_right
    intro _
    exact ⟨fun ⟨h, h', hold, hold'⟩ => ⟨h', h, hold', hold⟩,
      fun ⟨h', h, hold', hold⟩ => ⟨h, h', hold, hold'⟩⟩

/-- Two objects, each of which takes the tile of the other. -/
theorem spawn_comm_crowded : crowdedWorld.Consistent ∧
    requireId "spawn" (.int 1) = .ok (.int 1) ∧ requireId "spawn" (.int 2) = .ok (.int 2) ∧
    crowdedWorld.board.locate (.int 1) (.int 0) = .ok (some (1, 0)) ∧
    crowdedWorld.board.locate (.int 0) (.int 0) = .ok (some (0, 0)) ∧
    ∃ first second first' second' : World,
      crowdedWorld.Spawns (.int 1) (.int 1) (.int 0) (.int 7) first ∧
      first.Spawns (.int 2) (.int 0) (.int 0) (.int 8) second ∧
      crowdedWorld.Spawns (.int 2) (.int 0) (.int 0) (.int 8) first' ∧
      first'.Spawns (.int 1) (.int 1) (.int 0) (.int 7) second' ∧
      second.board = second'.board ∧
      second.objects.entries.Perm second'.objects.entries := by
  have hid : requireId "spawn" (.int 1) = .ok (.int 1) := by decide +kernel
  have hid' : requireId "spawn" (.int 2) = .ok (.int 2) := by decide +kernel
  have hplace : crowdedWorld.board.locate (.int 1) (.int 0) = .ok (some (1, 0)) := by
    decide +kernel
  have hplace' : crowdedWorld.board.locate (.int 0) (.int 0) = .ok (some (0, 0)) := by
    decide +kernel
  exact ⟨consistent_crowdedWorld, hid, hid', hplace, hplace',
    spawn_comm consistent_crowdedWorld hid hid' (by decide) hplace hplace' (by decide) _ _⟩

end World

end TileScript
