import TileScript.Proofs.World.Moving

/-!
# Relations and the board

Whether two objects are in a relation is computed from their records, where a move leads from its
direction, and what a reader sees is the board. The three agree: in every world that changes can
make, a relation says how far the text of one object stands from that of the other, and a move in a
direction away from an object on the same tile brings about the relation of that name.

## Main definitions

* `relationDistance?`: how far two objects in a relation stand from each other.
* `Board.Apart`: the distance between two texts on a board.

## Main statements

* `World.Sound.exists_relationHolds`: a relation holds exactly at its distance.
* `World.relations_agree`: relations, the board and moves.
-/

namespace TileScript

/-- How far the first of two objects in a relation stands from the second, in columns and in rows.
Rows are counted from the top. -/
def relationDistance? : String → Option (ℤ × ℤ)
  | "on" => some (0, 0)
  | "left" => some (-1, 0)
  | "right" => some (1, 0)
  | "over" => some (0, -1)
  | "under" => some (0, 1)
  | _ => none

/-- The text stands on the tile in the column and the row. -/
def Board.Shows (board : Board) (name : String) (column row : ℕ) : Prop :=
  ∃ tile, board.tile? column row = some tile ∧ name ∈ tile

/-- The first text stands at the given distance from the second, in columns and in rows. -/
def Board.Apart (board : Board) (name other : String) (distance : ℤ × ℤ) : Prop :=
  ∃ column row column' row' : ℕ, board.Shows name column row ∧ board.Shows other column' row' ∧
    (column : ℤ) = column' + distance.1 ∧ (row : ℤ) = row' + distance.2

/-- Seen from the other text, the distance is the opposite one. -/
theorem Board.apart_neg_iff {board : Board} {name other : String} {distance : ℤ × ℤ} :
    board.Apart name other (-distance) ↔ board.Apart other name distance := by
  constructor
  · rintro ⟨column, row, column', row', hname, hother, hcolumn, hrow⟩
    simp only [Prod.fst_neg, Prod.snd_neg] at hcolumn hrow
    exact ⟨column', row', column, row, hother, hname, by omega, by omega⟩
  · rintro ⟨column, row, column', row', hother, hname, hcolumn, hrow⟩
    refine ⟨column', row', column, row, hname, hother, ?_, ?_⟩
    · simp only [Prod.fst_neg]
      omega
    · simp only [Prod.snd_neg]
      omega

/-- The relations with a distance. -/
theorem cases_of_relationDistance? {relation : String} {distance : ℤ × ℤ}
    (h : relationDistance? relation = some distance) :
    (relation = "on" ∧ distance = (0, 0)) ∨ (relation = "left" ∧ distance = (-1, 0)) ∨
      (relation = "right" ∧ distance = (1, 0)) ∨ (relation = "over" ∧ distance = (0, -1)) ∨
      (relation = "under" ∧ distance = (0, 1)) := by
  unfold relationDistance? at h
  split at h
  all_goals simp_all

namespace Scalar

/-- Integers are compared as such. -/
theorem same_int (m n : ℤ) : (Scalar.int m).same (.int n) = decide (m = n) := rfl

theorem isBeyond_int (m n distance : ℤ) :
    (Scalar.int m).isBeyond (.int n) distance = .ok (decide (m = n + distance)) := rfl

theorem isBefore_int (m n : ℤ) : (Scalar.int m).isBefore (.int n) = .ok (decide (m = n - 1)) := rfl

end Scalar

/-- Two records are in a relation if their places are at its distance. -/
theorem TileObject.related_eq {a b : TileObject} {column row column' row' : ℕ}
    (ha : a.StandsAt column row) (hb : b.StandsAt column' row') {relation : String}
    {distance : ℤ × ℤ} (h : relationDistance? relation = some distance) :
    a.related relation b =
      .ok (decide ((column : ℤ) = column' + distance.1 ∧ (row : ℤ) = row' + distance.2)) := by
  rcases cases_of_relationDistance? h with ⟨rfl, rfl⟩ | ⟨rfl, rfl⟩ | ⟨rfl, rfl⟩ | ⟨rfl, rfl⟩ |
    ⟨rfl, rfl⟩
  all_goals
    simp only [related, ha.1, ha.2, hb.1, hb.2, Scalar.same_int, Scalar.isBefore_int,
      Scalar.isBeyond_int, String.reduceEq, if_true, if_false]
  case inl => simp
  case inr.inl | inr.inr.inl => by_cases hrow : row = row' <;> simp [hrow, sub_eq_add_neg]
  case inr.inr.inr.inl | inr.inr.inr.inr =>
    by_cases hcolumn : column = column' <;> simp [hcolumn, sub_eq_add_neg]

namespace World

variable {world : World} {a b : Scalar} {object other : TileObject} {name name' : String}

/-- The record of a live id is found. -/
theorem Regular.object?_eq (H : world.Regular) (ha : (a, object) ∈ world.objects.entries) :
    world.object? a = .ok (some object) := by
  have hid := H.keyed.admitted _ ha
  have hget := (H.keyed.get?_eq_some_iff Scalar.exact_isId hid).mpr ha
  refine bind_eq_ok hid.1 ?_
  rw [if_pos rfl, hget]
  rfl

/-- A relation with a distance is one between the records of two ids. -/
theorem relationHolds_of_distance {relation : String} {distance : ℤ × ℤ}
    (h : relationDistance? relation = some distance) (a b : Scalar) :
    world.relationHolds a relation b = do
      let object? ← world.object? a
      let other? ← world.object? b
      match object?, other? with
      | some object, some other => object.related relation other
      | _, _ => return false := by
  rcases cases_of_relationDistance? h with ⟨rfl, -⟩ | ⟨rfl, -⟩ | ⟨rfl, -⟩ | ⟨rfl, -⟩ | ⟨rfl, -⟩
  all_goals rfl

/-- A relation between two live ids is a matter of their places. -/
theorem Regular.relationHolds_eq (H : world.Regular) (ha : (a, object) ∈ world.objects.entries)
    (hb : (b, other) ∈ world.objects.entries) {column row column' row' : ℕ}
    (hplace : object.StandsAt column row) (hplace' : other.StandsAt column' row')
    {relation : String} {distance : ℤ × ℤ} (h : relationDistance? relation = some distance) :
    world.relationHolds a relation b =
      .ok (decide ((column : ℤ) = column' + distance.1 ∧ (row : ℤ) = row' + distance.2)) := by
  rw [relationHolds_of_distance h, H.object?_eq ha, H.object?_eq hb]
  exact TileObject.related_eq hplace hplace' h

/-- An object stands where its text is shown. -/
theorem Sound.shows_iff (H : world.Sound) (ha : (a, object) ∈ world.objects.entries)
    (hname : a.display? = some name) {column row : ℕ} :
    world.board.Shows name column row ↔ object.StandsAt column row := by
  constructor
  · rintro ⟨tile, htile, hmem⟩
    exact H.consistent.standsAt_of_mem ha hname htile hmem
  · intro hplace
    obtain ⟨-, column', row', hplace', -, htile⟩ := H.placed _ ha
    obtain ⟨rfl, rfl⟩ := hplace.unique hplace'
    obtain ⟨tile, htile⟩ := Option.isSome_iff_exists.mp htile
    exact ⟨tile, htile, H.mem_tile ha hname hplace htile⟩

/-- A relation holds between two objects if their texts are at its distance on the board. -/
theorem Sound.exists_relationHolds (H : world.Sound) (ha : (a, object) ∈ world.objects.entries)
    (hb : (b, other) ∈ world.objects.entries) (hname : a.display? = some name)
    (hname' : b.display? = some name') {relation : String} {distance : ℤ × ℤ}
    (h : relationDistance? relation = some distance) :
    ∃ holds, world.relationHolds a relation b = .ok holds ∧
      (holds = true ↔ world.board.Apart name name' distance) := by
  obtain ⟨-, column, row, hplace, -, -⟩ := H.placed _ ha
  obtain ⟨-, column', row', hplace', -, -⟩ := H.placed _ hb
  refine ⟨_, H.consistent.regular.relationHolds_eq ha hb hplace hplace' h, ?_⟩
  rw [decide_eq_true_eq]
  constructor
  · rintro ⟨hcolumn, hrow⟩
    exact ⟨column, row, column', row', (H.shows_iff ha hname).mpr hplace,
      (H.shows_iff hb hname').mpr hplace', hcolumn, hrow⟩
  · rintro ⟨c, r, c', r', hshows, hshows', hcolumn, hrow⟩
    obtain ⟨rfl, rfl⟩ := hplace.unique ((H.shows_iff ha hname).mp hshows)
    obtain ⟨rfl, rfl⟩ := hplace'.unique ((H.shows_iff hb hname').mp hshows')
    exact ⟨hcolumn, hrow⟩

/-- Two relations with opposite distances are converse to each other. -/
theorem Sound.relationHolds_comm (H : world.Sound) (ha : (a, object) ∈ world.objects.entries)
    (hb : (b, other) ∈ world.objects.entries) {relation relation' : String} {distance : ℤ × ℤ}
    (h : relationDistance? relation = some (-distance))
    (h' : relationDistance? relation' = some distance) :
    world.relationHolds a relation b = world.relationHolds b relation' a := by
  obtain ⟨name, hname, -⟩ := (H.keyed.admitted _ ha).exists_name
  obtain ⟨name', hname', -⟩ := (H.keyed.admitted _ hb).exists_name
  obtain ⟨holds, hholds, hiff⟩ := H.exists_relationHolds ha hb hname hname' h
  obtain ⟨holds', hholds', hiff'⟩ := H.exists_relationHolds hb ha hname' hname h'
  rw [hholds, hholds', Bool.eq_iff_iff.mpr (hiff.trans (Board.apart_neg_iff.trans hiff'.symm))]

/-! ## Moves in a direction -/

/-- A known direction is one to go in. -/
theorem truthy_of_directionStep? {direction : Scalar} {step : ℤ × ℤ}
    (h : directionStep? direction = some step) : direction.truthy = true := by
  unfold directionStep? at h
  split at h
  case h_7 => cases h
  all_goals rfl

/-- A direction without coordinates leads one step further. -/
theorem Leads.of_direction {direction : Scalar} {column row column' row' : ℕ}
    (h : Leads direction .null .null column row column' row') {step : ℤ × ℤ}
    (hstep : directionStep? direction = some step) :
    (column' : ℤ) = column + step.1 ∧ (row' : ℤ) = row + step.2 := by
  obtain ⟨step', hstep', hgrid⟩ := h
  rw [if_pos (truthy_of_directionStep? hstep), hstep] at hstep'
  obtain rfl := Option.some.inj hstep'
  simpa using Scalar.gridTile?_int_eq_ok hgrid

/-- An object that is not the mover and does not stand where the mover comes keeps its record. -/
theorem Relocated.mem_of_not_standsAt {state swap : Scalar} {column row : ℕ} {after : World}
    {moved : Moved} (R : world.Relocated a name column row state swap after moved)
    (H : world.Consistent) (hb : (b, other) ∈ world.objects.entries) (hne : b ≠ a)
    (hplace : ¬other.StandsAt moved.newX moved.newY) : (b, other) ∈ after.objects.entries := by
  have hnot : ¬b.isAmong moved.swapped = true := fun hamong =>
    hplace (R.standsAt_of_isAmong H hb hamong)
  rw [R.records]
  exact List.mem_map.mpr ⟨_, hb, by simp [Moved.record, hne, hnot]⟩

/-- The directions of moves that are also relations lead as far as the relations say. -/
theorem directionStep?_eq {relation : String}
    (h : relation ∈ ["left", "right", "over", "under"]) :
    ∃ step : ℤ × ℤ, step ≠ (0, 0) ∧ directionStep? relation = some step ∧
      relationDistance? relation = some step := by
  simp only [List.mem_cons, List.not_mem_nil, or_false] at h
  rcases h with rfl | rfl | rfl | rfl
  all_goals exact ⟨_, by decide, rfl, rfl⟩

/-- A move away from an object on the same tile brings about the relation of its direction. -/
theorem Sound.relationHolds_of_move (H : world.Sound) (ha : (a, object) ∈ world.objects.entries)
    (hb : (b, other) ∈ world.objects.entries) (hne : a ≠ b)
    (hon : world.relationHolds a "on" b = .ok true) {relation : String}
    (hrelation : relation ∈ ["left", "right", "over", "under"]) {state swap : Scalar}
    {after : World} {moved : Moved}
    (hmove : world.move a relation .null .null state swap = (after, .ok moved)) :
    after.relationHolds a relation b = .ok true := by
  obtain ⟨step, hstep, hdirection, hdistance⟩ := directionStep?_eq hrelation
  have hregular := H.consistent.regular
  obtain ⟨-, name, object, column, row, tile, S, -, hleads, R⟩ :=
    H.consistent.exists_relocated hmove
  rw [(H.keyed.admitted _ ha).2] at S R
  obtain ⟨hcolumn, hrow⟩ := hleads.of_direction hdirection
  -- The other object stands on the tile that the mover leaves, and stays there.
  have hother : other.StandsAt column row := by
    obtain ⟨-, column', row', hplace', -, -⟩ := H.placed _ hb
    rw [hregular.relationHolds_eq S.recorded hb S.place hplace' rfl] at hon
    simp only [Except.ok.injEq, decide_eq_true_eq, add_zero, Int.natCast_inj] at hon
    obtain ⟨rfl, rfl⟩ := hon
    exact hplace'
  have hstays : (b, other) ∈ after.objects.entries := by
    refine R.mem_of_not_standsAt H.consistent hb hne.symm fun hplace => hstep ?_
    obtain ⟨hx, hy⟩ := hplace.unique hother
    exact Prod.ext (by simp only; omega) (by simp only; omega)
  obtain ⟨tile', S'⟩ := R.exists_standing S
  rw [(R.regular hregular).relationHolds_eq S'.recorded hstays S'.place hother hdistance,
    decide_eq_true (And.intro hcolumn hrow)]

/-- **Relations agree with the board and with moves.** After any changes of the empty world, take
two objects. It can be told of each relation whether it holds between them, and it does so exactly
if their texts stand on the board at the distance of the relation: on one tile, or on tiles next to
each other in the direction of the relation. So left and right are converse to each other, and so
are over and under. If the two are different and on one tile, and the first is moved in a direction,
with or without a swap, then it is in the relation of that name to the second. -/
theorem relations_agree (edits : List Edit) (ha : a ∈ (edits.foldl edit empty).objects.keys)
    (hb : b ∈ (edits.foldl edit empty).objects.keys) :
    let world := edits.foldl edit empty
    (∃ name name', a.display? = some name ∧ b.display? = some name' ∧
      ∀ relation distance, relationDistance? relation = some distance →
        ∃ holds, world.relationHolds a relation b = .ok holds ∧
          (holds = true ↔ world.board.Apart name name' distance)) ∧
    world.relationHolds a "left" b = world.relationHolds b "right" a ∧
    world.relationHolds a "over" b = world.relationHolds b "under" a ∧
    (a ≠ b → world.relationHolds a "on" b = .ok true →
      ∀ relation ∈ ["left", "right", "over", "under"], ∀ state swap after moved,
        world.move a relation .null .null state swap = (after, .ok moved) →
        after.relationHolds a relation b = .ok true) := by
  have H : (edits.foldl edit empty).Sound := sound_empty.edits edits
  obtain ⟨object, ha⟩ := Table.mem_keys.mp ha
  obtain ⟨other, hb⟩ := Table.mem_keys.mp hb
  obtain ⟨name, hname, -⟩ := (H.keyed.admitted _ ha).exists_name
  obtain ⟨name', hname', -⟩ := (H.keyed.admitted _ hb).exists_name
  refine ⟨⟨name, name', hname, hname', ?_⟩, H.relationHolds_comm ha hb rfl rfl,
    H.relationHolds_comm ha hb rfl rfl, ?_⟩
  · intro relation distance h
    exact H.exists_relationHolds ha hb hname hname' h
  · intro hne hon relation hrelation state swap after moved hmove
    exact H.relationHolds_of_move ha hb hne hon hrelation hmove

/-- Of two objects on a tile, the upper one changes places with a third one on its left. -/
theorem relations_agree_crowded :
    .int 3 ∈ crowdedWorld.objects.keys ∧ .int 2 ∈ crowdedWorld.objects.keys ∧
    crowdedWorld.relationHolds (.int 3) "on" (.int 2) = .ok true ∧
    crowdedWorld.board.Apart "3" "2" (0, 0) ∧
    ∃ after moved,
      crowdedWorld.move (.int 3) "left" .null .null .null (.bool true) = (after, .ok moved) ∧
      moved.swapped = ["1"] ∧ after.relationHolds (.int 3) "left" (.int 2) = .ok true := by
  have hthird : .int 3 ∈ crowdedWorld.objects.keys := by decide +kernel
  have hsecond : .int 2 ∈ crowdedWorld.objects.keys := by decide +kernel
  have hon : crowdedWorld.relationHolds (.int 3) "on" (.int 2) = .ok true := by decide +kernel
  have hswapped : (crowdedWorld.move (.int 3) "left" .null .null .null (.bool true)).2.map
      Moved.swapped = .ok ["1"] := by decide +kernel
  obtain ⟨after, moved, hmove, hswapped⟩ := exists_of_map_eq_ok hswapped
  obtain ⟨⟨name, name', hname, hname', hrelations⟩, -, -, hmoves⟩ :=
    relations_agree _ hthird hsecond
  have htext : (Scalar.int 3).display? = some "3" := by decide +kernel
  have htext' : (Scalar.int 2).display? = some "2" := by decide +kernel
  obtain rfl := Option.some.inj (htext.symm.trans hname)
  obtain rfl := Option.some.inj (htext'.symm.trans hname')
  obtain ⟨holds, hholds, hiff⟩ := hrelations "on" (0, 0) rfl
  obtain rfl := Except.ok.inj (hon.symm.trans hholds)
  exact ⟨hthird, hsecond, hon, hiff.mp rfl, after, moved, hmove, hswapped,
    hmoves (by decide) hon "left" (by decide) _ _ _ _ hmove⟩

end World

end TileScript
