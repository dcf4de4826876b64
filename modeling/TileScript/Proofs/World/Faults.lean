import TileScript.Proofs.World.Relations
import TileScript.Proofs.World.Resizing

/-!
# Which faults changes have

A fault of a program on the board is one of its values, and a run logs it as such. The changes and
the relations keep to this but for one kind of arguments: whether a value is a number is found out
by converting it to floating point, and the conversion of an integer beyond all floating point
numbers is a fault of its own. It is met exactly where such an argument is looked at, and arguments
after one that is refused are not looked at.

Places that a program does not name are never so large: a canvas has a size that was looked at, and
a step from one of its tiles leads no further than its edge.

## Main definitions

* `SoftUnless`: the fault of a result, if there is one, is that of a value, except in one case.
* `World.Sized`: a sound world whose canvas has a size that can be converted.
* `World.outcome`, `World.Overflows`: the fault of a change, and when it is one of conversion.
* `World.RelationOverflows`: the same for relations.

## Main statements

* `Scalar.fitsFloat_int_iff`: the integers that can be converted.
* `World.Sized.softUnless_outcome`: the faults of changes.
* `World.Sound.relationHolds_cases`: relations have no other fault.
-/

namespace TileScript

/-! ## Integers that can be converted -/

theorem Scalar.fitsFloat_int_iff {n : ℤ} {e f : ℕ} (he : e = 970) (hf : f = e + 54) :
    (Scalar.int n).FitsFloat ↔ n.natAbs < 2 ^ f - 2 ^ e := Binary64.isSome_ofInt?_iff he hf

/-- An integer that is no larger than one that can be converted can be converted. -/
theorem Scalar.FitsFloat.int_of_natAbs_le {m n : ℤ} (h : (Scalar.int n).FitsFloat)
    (hle : m.natAbs ≤ n.natAbs) : (Scalar.int m).FitsFloat :=
  (fitsFloat_int_iff rfl rfl).mpr (lt_of_le_of_lt hle ((fitsFloat_int_iff rfl rfl).mp h))

/-! ## Faults of values -/

/-- The result is the fault of a conversion in the given case, and else it has no fault or one of a
value. -/
structure SoftUnless {α : Type} (overflow : Prop) (result : Except Fault α) : Prop where
  overflow_iff : result = .error .tooLargeForFloat ↔ overflow
  soft : ∀ fault, result = .error fault → fault = .tooLargeForFloat ∨ fault.kind = .value

namespace SoftUnless

variable {α β : Type} {p q : Prop} {result : Except Fault α}

theorem ok (a : α) : SoftUnless False (.ok a : Except Fault α) :=
  ⟨by simp, fun _ h => nomatch h⟩

theorem error {fault : Fault} (h : fault.kind = .value) :
    SoftUnless False (.error fault : Except Fault α) := by
  refine ⟨iff_false_intro ?_, ?_⟩
  · rintro ⟨⟩
    cases h
  · rintro _ ⟨⟩
    exact .inr h

theorem congr (h : SoftUnless p result) (hpq : p ↔ q) : SoftUnless q result :=
  ⟨h.overflow_iff.trans hpq, h.soft⟩

theorem not_of_ok (h : SoftUnless p result) {a : α} (hresult : result = .ok a) : ¬p :=
  fun hp => nomatch hresult.symm.trans (h.overflow_iff.mpr hp)

theorem bind {next : α → Except Fault β} {q : α → Prop} (h : SoftUnless p result)
    (hnext : ∀ a, result = .ok a → SoftUnless (q a) (next a)) :
    SoftUnless (p ∨ ∃ a, result = .ok a ∧ q a) (result >>= next) := by
  cases result with
  | ok a =>
    exact (hnext a rfl).congr (by simp [h.not_of_ok rfl])
  | error fault =>
    refine ⟨?_, fun _ hfault => h.soft _ (congrArg Except.error (Except.error.inj hfault))⟩
    have hiff := h.overflow_iff
    simp only [Except.error.injEq] at hiff
    simp [Except.bind, Bind.bind, hiff]

/-- What comes after the conversions only has faults of values. -/
theorem bind_soft {next : α → Except Fault β} (h : SoftUnless p result)
    (hnext : ∀ a, result = .ok a → SoftUnless False (next a)) : SoftUnless p (result >>= next) :=
  (h.bind hnext).congr (by simp)

theorem bind_of_ok {next : α → Except Fault β} {a : α} (h : result = .ok a)
    (hnext : SoftUnless p (next a)) : SoftUnless p (result >>= next) := by
  rw [h]
  exact hnext

theorem map (h : SoftUnless p result) (f : α → β) : SoftUnless p (result.map f) := by
  have hbind : result.map f = result >>= fun a => .ok (f a) := by cases result <;> rfl
  rw [hbind]
  exact h.bind_soft fun a _ => .ok (f a)

/-- A change that is done whenever its checks pass has the faults of its checks. -/
theorem of_checked {checks : Except Fault β} {outcome : Outcome α} (h : SoftUnless p checks)
    (world : World) (hdone : ∀ plan, checks = .ok plan → ∃ after a, outcome = (after, .ok a))
    (hstop : ∀ cause, checks = .error cause → outcome = (world, .error cause)) :
    SoftUnless p outcome.2 := by
  cases hchecks : checks with
  | ok plan =>
    obtain ⟨after, a, rfl⟩ := hdone plan hchecks
    exact (ok a).congr (by simp [h.not_of_ok hchecks])
  | error cause =>
    rw [hstop cause hchecks]
    have h : SoftUnless p (.error cause : Except Fault β) := hchecks ▸ h
    refine ⟨?_, fun fault hfault => h.soft fault (congrArg Except.error (Except.error.inj hfault))⟩
    simpa using h.overflow_iff

end SoftUnless

namespace Scalar

theorem softUnless_toFloat (n : ℤ) :
    SoftUnless (¬(Scalar.int n).FitsFloat) (Number.int n).toFloat := by
  rw [Number.toFloat, FitsFloat]
  cases Binary64.ofInt? n with
  | none => exact ⟨by simp, fun fault hfault => .inl (Except.error.inj hfault).symm⟩
  | some x => exact (SoftUnless.ok x).congr (by simp)

theorem softUnless_isNumber (value : Scalar) : SoftUnless (¬value.FitsFloat) value.isNumber := by
  cases value with
  | int n => exact (softUnless_toFloat n).bind_soft fun _ _ => .ok true
  | _ => exact (SoftUnless.ok _).congr (by simp [FitsFloat])

theorem isNumber_of_not_fitsFloat {value : Scalar} (h : ¬value.FitsFloat) :
    value.isNumber = .error .tooLargeForFloat := (softUnless_isNumber value).overflow_iff.mpr h

theorem exists_isNumber {value : Scalar} (h : value.FitsFloat) :
    ∃ number, value.isNumber = .ok number := by
  cases value with
  | int n =>
    obtain ⟨x, hx⟩ := Option.isSome_iff_exists.mp h
    exact ⟨true, isNumber_int_iff.mpr ⟨x, hx⟩⟩
  | _ => exact ⟨_, rfl⟩

theorem softUnless_gridIndex? (value : Scalar) :
    SoftUnless (¬value.FitsFloat) value.gridIndex? := by
  cases value with
  | int n => exact (softUnless_toFloat n).bind_soft fun _ _ => .ok (some n)
  | _ => exact (SoftUnless.ok _).congr (by simp [FitsFloat])

theorem fitsFloat_of_gridIndex? {value : Scalar} {index? : Option ℤ}
    (h : value.gridIndex? = .ok index?) : value.FitsFloat :=
  not_not.mp ((softUnless_gridIndex? value).not_of_ok h)

theorem FitsFloat.gridIndex?_eq {n : ℤ} (h : (Scalar.int n).FitsFloat) :
    (Scalar.int n).gridIndex? = .ok (some n) := by
  obtain ⟨x, hx⟩ := Option.isSome_iff_exists.mp h
  exact bind_eq_ok (Number.toFloat_int_eq_ok_iff.mpr hx) rfl

/-- One of two coordinates cannot be converted. The second is looked at only if the first is that
of a column. -/
def PairOverflows (x y : Scalar) : Prop :=
  ¬x.FitsFloat ∨ (∃ column, x.gridIndex? = .ok (some column)) ∧ ¬y.FitsFloat

/-- The same for coordinates either of which may be left out. -/
def TargetOverflows (x y : Scalar) : Prop :=
  ¬x.FitsFloat ∨ (x = .null ∨ ∃ column, x.gridIndex? = .ok (some column)) ∧ ¬y.FitsFloat

/-- Integers that can be converted stand in for coordinates that are left out. -/
theorem pairOverflows_target {m n : ℤ} (hm : (Scalar.int m).FitsFloat)
    (hn : (Scalar.int n).FitsFloat) (x y : Scalar) :
    PairOverflows (if x = .null then .int m else x) (if y = .null then .int n else y) ↔
      TargetOverflows x y := by
  have hy : (if y = .null then .int n else y).FitsFloat ↔ y.FitsFloat := by
    split
    · next hnull => exact iff_of_true hn (hnull ▸ trivial)
    · rfl
  rw [PairOverflows, TargetOverflows, hy]
  split
  · next hnull =>
    have hx : x.FitsFloat := hnull ▸ trivial
    simp only [hnull, true_or, true_and, hm.gridIndex?_eq, hm, not_true, false_or]
    rw [← hnull]
    simp [hx]
  · next hnull => simp [hnull]

theorem softUnless_gridTile? (x y : Scalar) : SoftUnless (PairOverflows x y) (gridTile? x y) := by
  refine ((softUnless_gridIndex? x).bind
    (q := fun column? => column?.isSome = true ∧ ¬y.FitsFloat) fun column? _ => ?_).congr
      (or_congr_right ?_)
  · cases column? with
    | none => exact (SoftUnless.ok none).congr (by simp)
    | some column =>
      refine ((softUnless_gridIndex? y).bind_soft fun row? _ => ?_).congr (by simp)
      cases row? <;> exact .ok _
  · simp only [Option.isSome_iff_exists]
    constructor
    · rintro ⟨_, hx, ⟨column, rfl⟩, hy⟩
      exact ⟨⟨column, hx⟩, hy⟩
    · rintro ⟨⟨column, hx⟩, hy⟩
      exact ⟨some column, hx, ⟨column, rfl⟩, hy⟩

theorem softUnless_requireId (action : String) (id : Scalar) :
    SoftUnless (¬id.FitsFloat) (requireId action id) := by
  refine (softUnless_isNumber id).bind_soft fun number _ => ?_
  cases number with
  | true => exact .ok _
  | false => exact .error rfl

theorem softUnless_line (pieces : List Scalar) : SoftUnless False (line pieces) := by
  rw [line]
  split
  · exact .ok _
  · exact .error rfl

/-- A value whose normal form is an id is a number. -/
theorem isNumber_of_isId_normalize {value : Scalar} (h : value.normalize.IsId) :
    value.isNumber = .ok true := by
  cases value with
  | float x =>
    cases x with
    | nan => exact h.1
    | _ => rfl
  | _ => exact h.1

end Scalar

namespace World

variable {world : World}

/-! ## Changes -/

/-- The direction of a move as a step; without a direction it stays. -/
def moveStep? (direction : Scalar) : Option (ℤ × ℤ) :=
  if direction.truthy then directionStep? direction else some (0, 0)

/-- A step leads no further than to the next tile. -/
theorem natAbs_le_of_moveStep? {direction : Scalar} {step : ℤ × ℤ}
    (h : moveStep? direction = some step) : step.1.natAbs ≤ 1 ∧ step.2.natAbs ≤ 1 := by
  rw [moveStep?] at h
  split at h
  · unfold directionStep? at h
    split at h
    case h_7 => cases h
    all_goals
      obtain rfl := Option.some.inj h
      decide
  · obtain rfl := Option.some.inj h
    decide

/-- Where a move leads from a tile. -/
theorem targetPosition_eq {object : TileObject} {column row : ℕ}
    (hplace : object.StandsAt column row) (direction x y : Scalar) :
    targetPosition object direction x y =
      match moveStep? direction with
      | none => .error (.unknownDirection direction)
      | some step => .ok (if x = .null then .int (column + step.1) else x,
          if y = .null then .int (row + step.2) else y) := by
  rw [targetPosition, moveStep?, hplace.1, hplace.2]
  by_cases htruthy : direction.truthy = true
  · simp only [htruthy, if_true]
    cases directionStep? direction <;> rfl
  · simp only [htruthy, if_false, Bool.false_eq_true]
    rw [Int.add_zero, Int.add_zero]
    rfl

/-- The outcome of a change, its result aside. -/
def outcome (world : World) : Edit → Except Fault Unit
  | .resize width height => (world.resize width height).2.map fun _ => ()
  | .spawn id x y state => (world.spawn id x y state).2.map fun _ => ()
  | .despawn id => (world.despawn id).2.map fun _ => ()
  | .move id direction x y state swap =>
    (world.move id direction x y state swap).2.map fun _ => ()

/-- A change looks at an argument that cannot be converted. An id comes first, and where it is
refused or no object has it nothing else is looked at. A coordinate that a move is not given is that
of the object or next to it. -/
def Overflows (world : World) : Edit → Prop
  | .resize width height => Scalar.PairOverflows width height
  | .spawn id x y _ => ¬id.FitsFloat ∨ id.isNumber = .ok true ∧ Scalar.PairOverflows x y
  | .despawn id => ¬id.FitsFloat
  | .move id direction x y _ _ => ¬id.FitsFloat ∨
    id.normalize ∈ world.objects.keys ∧ (moveStep? direction).isSome = true ∧
      Scalar.TargetOverflows x y

/-- A sound world whose canvas has a size that can be converted. -/
structure Sized (world : World) : Prop where
  sound : world.Sound
  width : world.canvas.width.FitsFloat
  height : world.canvas.height.FitsFloat

theorem sized_empty : empty.Sized := ⟨sound_empty, by decide +kernel, by decide +kernel⟩

theorem Sized.edit (H : world.Sized) (edit : Edit) : (world.edit edit).Sized := by
  have hsound := H.sound.edit edit
  rcases world.canvas_edit edit with hsame | ⟨width, height, columns, rows, hplan, hcanvas⟩
  · exact ⟨hsound, hsame ▸ H.width, hsame ▸ H.height⟩
  · have hgrid := Scalar.gridTile?_int (planResize_eq_ok_iff.mp hplan).1
    obtain ⟨hcolumns, hrows⟩ := Scalar.gridTile?_eq_some_iff.mp hgrid
    refine ⟨hsound, ?_, ?_⟩
    · rw [hcanvas]
      exact Scalar.fitsFloat_of_gridIndex? hcolumns
    · rw [hcanvas]
      exact Scalar.fitsFloat_of_gridIndex? hrows

theorem Sound.legible (H : world.Sound) : world.Legible where
  rectangle := H.consistent.regular.rectangle
  names name hname := by
    obtain ⟨id, hid, htext⟩ := H.consistent.regular.names name hname
    obtain ⟨name', htext', hparse⟩ := hid.exists_name
    obtain rfl := Option.some.inj (htext.symm.trans htext')
    exact ⟨id, hparse⟩

theorem softUnless_planResize (width height : Scalar) :
    SoftUnless (Scalar.PairOverflows width height) (planResize width height) := by
  refine (Scalar.softUnless_gridTile? width height).bind_soft fun size _ => ?_
  cases size with
  | none => exact .error rfl
  | some size =>
    dsimp only
    split
    · exact .error rfl
    · exact .ok _

theorem softUnless_planSpawn (world : World) (id x y : Scalar) :
    SoftUnless (¬id.FitsFloat ∨ id.isNumber = .ok true ∧ Scalar.PairOverflows x y)
      (world.planSpawn id x y) := by
  refine ((Scalar.softUnless_requireId "spawn" id).bind
    (q := fun _ => Scalar.PairOverflows x y) fun key _ => ?_).congr (or_congr_right ?_)
  · refine (Scalar.softUnless_gridTile? x y).bind_soft fun place _ => ?_
    cases place with
    | none => exact .error rfl
    | some place =>
      dsimp only
      cases world.board.locateIndex? place.1 place.2 with
      | none => exact .error rfl
      | some place => exact (Scalar.softUnless_line [key]).bind_soft fun name _ => .ok _
  · simp only [Scalar.requireId_eq_ok_iff]
    constructor
    · rintro ⟨_, ⟨hnumber, -⟩, hpair⟩
      exact ⟨hnumber, hpair⟩
    · rintro ⟨hnumber, hpair⟩
      exact ⟨_, ⟨hnumber, rfl⟩, hpair⟩

/-- An object that is found stands on a tile, and is located there. -/
theorem Sound.exists_standing (H : world.Sound) {key : Scalar} (hid : key.IsId)
    {object : TileObject} (hget : world.objects.get? key = some object) :
    ∃ name column row tile, world.Standing key name object column row tile ∧
      world.board.locate object.x object.y = .ok (some (column, row)) := by
  have hobject := (H.keyed.get?_eq_some_iff Scalar.exact_isId hid).mp hget
  obtain ⟨name, column, row, tile, S⟩ := H.consistent.exists_standing hobject
  obtain ⟨-, column', row', hplace, hgrid, -⟩ := H.placed _ hobject
  obtain ⟨rfl, rfl⟩ := S.place.unique hplace
  exact ⟨name, column, row, tile, S, S.locate_eq H.consistent.regular hgrid⟩

theorem Sound.softUnless_planDespawn (H : world.Sound) (id : Scalar) :
    SoftUnless (¬id.FitsFloat) (world.planDespawn id) := by
  refine (Scalar.softUnless_requireId "despawn" id).bind_soft fun key hkey => ?_
  cases hget : world.objects.get? key with
  | none => exact .error rfl
  | some object =>
    obtain ⟨name, column, row, tile, S, hlocate⟩ :=
      H.exists_standing (Scalar.isId_of_requireId hkey) hget
    refine .bind_of_ok hlocate ?_
    refine (Scalar.softUnless_line [key]).bind_soft fun name' _ => ?_
    simp only [S.shown]
    exact .ok _

/-- The places that a step from a tile leads to can be converted. -/
theorem Sized.fitsFloat_step (H : world.Sized) {direction : Scalar} {step : ℤ × ℤ}
    (hstep : moveStep? direction = some step) {column row : ℕ}
    (htile : (world.board.tile? column row).isSome = true) :
    (Scalar.int (column + step.1)).FitsFloat ∧ (Scalar.int (row + step.2)).FitsFloat := by
  obtain ⟨columns, rows, hcanvas, hboard⟩ := H.sound.size
  obtain ⟨hcolumn, hrow⟩ := hboard.isSome_tile?_iff.mp htile
  obtain ⟨hdx, hdy⟩ := natAbs_le_of_moveStep? hstep
  have hwidth := H.width
  have hheight := H.height
  rw [hcanvas] at hwidth hheight
  exact ⟨Scalar.FitsFloat.int_of_natAbs_le (n := columns) hwidth (by omega),
    Scalar.FitsFloat.int_of_natAbs_le (n := rows) hheight (by omega)⟩

theorem Sized.softUnless_planMove (H : world.Sized) (id direction x y : Scalar) :
    SoftUnless (¬id.FitsFloat ∨
      id.normalize ∈ world.objects.keys ∧ (moveStep? direction).isSome = true ∧
        Scalar.TargetOverflows x y)
      (world.planMove id direction x y) := by
  refine ((Scalar.softUnless_requireId "move" id).bind
    (q := fun key => key ∈ world.objects.keys ∧ (moveStep? direction).isSome = true ∧
      Scalar.TargetOverflows x y) fun key hkey => ?_).congr (or_congr_right ?_)
  · have hid := Scalar.isId_of_requireId hkey
    cases hget : world.objects.get? key with
    | none =>
      have hnone := (H.sound.keyed.get?_eq_none_iff Scalar.exact_isId hid).mp hget
      refine (SoftUnless.error rfl).congr (iff_of_false not_false fun hkeys => ?_)
      obtain ⟨object, hobject⟩ := Table.mem_keys.mp hkeys.1
      exact hnone object hobject
    | some object =>
      obtain ⟨name, column, row, tile, S, hlocate⟩ := H.sound.exists_standing hid hget
      have hkeys : key ∈ world.objects.keys := Table.mem_keys.mpr ⟨object, S.recorded⟩
      dsimp only
      rw [targetPosition_eq S.place]
      cases hstep : moveStep? direction with
      | none => exact (SoftUnless.error rfl).congr (by simp)
      | some step =>
        -- Coordinates that are left out are replaced by those of a tile or next to it.
        obtain ⟨hcolumn, hrow⟩ := H.fitsFloat_step hstep (Option.isSome_of_eq_some S.shown)
        refine ((Scalar.softUnless_gridTile? _ _).bind_soft fun place _ => ?_).congr ?_
        · cases place with
          | none => exact .error rfl
          | some place =>
            dsimp only
            cases world.board.locateIndex? place.1 place.2 with
            | none => exact .error rfl
            | some place =>
              refine .bind_of_ok hlocate ?_
              refine (Scalar.softUnless_line [key]).bind_soft fun name' _ => ?_
              simp only [S.shown]
              exact .ok _
        · simp [Scalar.pairOverflows_target hcolumn hrow, hkeys]
  · simp only [Scalar.requireId_eq_ok_iff]
    constructor
    · rintro ⟨_, ⟨-, rfl⟩, h⟩
      exact h
    · intro h
      obtain ⟨object, hobject⟩ := Table.mem_keys.mp h.1
      have hid := H.sound.keyed.admitted _ hobject
      exact ⟨_, ⟨Scalar.isNumber_of_isId_normalize hid, rfl⟩, h⟩

/-- **The faults of changes** are those of values, unless an argument that is looked at cannot be
converted. -/
theorem Sized.softUnless_outcome (H : world.Sized) (edit : Edit) :
    SoftUnless (world.Overflows edit) (world.outcome edit) := by
  cases edit with
  | resize width height =>
    refine ((softUnless_planResize width height).of_checked world
      (fun plan hplan => ?_) fun cause hplan => ?_).map _
    · obtain ⟨after, dropped, hresize, -⟩ := H.sound.exists_resized hplan
      exact ⟨after, dropped, hresize⟩
    · rw [World.resize, hplan]
  | spawn id x y state =>
    refine ((softUnless_planSpawn world id x y).of_checked world
      (fun plan hplan => H.sound.legible.exists_spawn hplan state) fun cause hplan => ?_).map _
    rw [World.spawn, hplan]
  | despawn id =>
    refine ((H.sound.softUnless_planDespawn id).of_checked world
      (fun plan hplan => ?_) fun cause hplan => ?_).map _
    · rw [World.despawn, hplan]
      exact ⟨_, _, rfl⟩
    · rw [World.despawn, hplan]
  | move id direction x y state swap =>
    refine ((H.softUnless_planMove id direction x y).of_checked world
      (fun plan hplan => H.sound.legible.exists_move hplan state swap) fun cause hplan => ?_).map _
    rw [World.move, hplan]

/-- A change that fails leaves a sound world as it was. -/
theorem Sound.edit_of_error (H : world.Sound) {edit : Edit} {fault : Fault}
    (h : world.outcome edit = .error fault) : world.edit edit = world := by
  cases edit with
  | resize width height => exact (H.isWhole_resize width height).eq_of_error h
  | spawn id x y state => exact (H.isWhole_spawn id x y state).eq_of_error h
  | despawn id => exact (H.isWhole_despawn id).eq_of_error h
  | move id direction x y state swap =>
    exact (H.isWhole_move id direction x y state swap).eq_of_error h

/-! ## Relations -/

/-- A relation between two values looks at one that cannot be converted. Identity looks at the
second only if the first is a number. -/
def RelationOverflows (left : Scalar) (relation : String) (right : Scalar) : Prop :=
  ¬left.FitsFloat ∨ (relation = "is" → left.isNumber = .ok true) ∧ ¬right.FitsFloat

theorem exists_object? (world : World) {id : Scalar} (h : id.FitsFloat) :
    ∃ object?, world.object? id = .ok object? ∧
      ∀ object, object? = some object → ∃ key, (key, object) ∈ world.objects.entries := by
  obtain ⟨number, hnumber⟩ := Scalar.exists_isNumber h
  refine ⟨_, bind_eq_ok hnumber rfl, fun object hobject => ?_⟩
  split at hobject
  · obtain ⟨entry, hentry, rfl⟩ := Option.map_eq_some_iff.mp hobject
    exact ⟨entry.1, List.mem_of_find?_eq_some hentry⟩
  · cases hobject

theorem object?_of_not_fitsFloat (world : World) {id : Scalar} (h : ¬id.FitsFloat) :
    world.object? id = .error .tooLargeForFloat := by
  rw [object?, Scalar.isNumber_of_not_fitsFloat h]
  rfl

/-- Whether two values are the same number is found out, unless one that is looked at cannot be
converted. -/
theorem relationHolds_is (world : World) (left right : Scalar) :
    (RelationOverflows left "is" right ∧
      world.relationHolds left "is" right = .error .tooLargeForFloat) ∨
    (¬RelationOverflows left "is" right ∧
      ∃ holds, world.relationHolds left "is" right = .ok holds) := by
  have hunfold : world.relationHolds left "is" right = do
      if ← left.isNumber then
        if ← right.isNumber then return left.same right
      return false := rfl
  rw [hunfold]
  by_cases hleft : left.FitsFloat
  · obtain ⟨number, hnumber⟩ := Scalar.exists_isNumber hleft
    rw [hnumber]
    cases number with
    | false => exact .inr ⟨by simp [RelationOverflows, hleft, hnumber], false, rfl⟩
    | true =>
      by_cases hright : right.FitsFloat
      · obtain ⟨number', hnumber'⟩ := Scalar.exists_isNumber hright
        rw [hnumber']
        refine .inr ⟨by simp [RelationOverflows, hleft, hright], ?_⟩
        cases number' <;> exact ⟨_, rfl⟩
      · rw [Scalar.isNumber_of_not_fitsFloat hright]
        exact .inl ⟨.inr ⟨fun _ => hnumber, hright⟩, rfl⟩
  · rw [Scalar.isNumber_of_not_fitsFloat hleft]
    exact .inl ⟨.inl hleft, rfl⟩

theorem Sound.relationHolds_distance (H : world.Sound) {relation : String} {distance : ℤ × ℤ}
    (h : relationDistance? relation = some distance) (left right : Scalar) :
    ((¬left.FitsFloat ∨ ¬right.FitsFloat) ∧
      world.relationHolds left relation right = .error .tooLargeForFloat) ∨
    (left.FitsFloat ∧ right.FitsFloat ∧
      ∃ holds, world.relationHolds left relation right = .ok holds) := by
  rw [relationHolds_of_distance h]
  by_cases hleft : left.FitsFloat
  · obtain ⟨object?, hobject, hentry⟩ := world.exists_object? hleft
    rw [hobject]
    by_cases hright : right.FitsFloat
    · obtain ⟨other?, hother, hentry'⟩ := world.exists_object? hright
      rw [hother]
      refine .inr ⟨hleft, hright, ?_⟩
      cases object? with
      | none => exact ⟨false, rfl⟩
      | some object =>
        cases other? with
        | none => exact ⟨false, rfl⟩
        | some other =>
          obtain ⟨key, hkey⟩ := hentry object rfl
          obtain ⟨key', hkey'⟩ := hentry' other rfl
          obtain ⟨-, column, row, hplace, -⟩ := H.placed _ hkey
          obtain ⟨-, column', row', hplace', -⟩ := H.placed _ hkey'
          exact ⟨_, TileObject.related_eq hplace hplace' h⟩
    · rw [world.object?_of_not_fitsFloat hright]
      exact .inl ⟨.inr hright, rfl⟩
  · rw [world.object?_of_not_fitsFloat hleft]
    exact .inl ⟨.inl hleft, rfl⟩

/-- The names of the relations between two objects. -/
def relationNames : List String := ["is", "on", "under", "over", "left", "right"]

/-- **Relations** hold or do not hold, unless a value that is looked at cannot be converted. -/
theorem Sound.relationHolds_cases (H : world.Sound) {relation : String}
    (hrelation : relation ∈ relationNames) (left right : Scalar) :
    (RelationOverflows left relation right ∧
      world.relationHolds left relation right = .error .tooLargeForFloat) ∨
    (¬RelationOverflows left relation right ∧
      ∃ holds, world.relationHolds left relation right = .ok holds) := by
  by_cases his : relation = "is"
  · subst his
    exact world.relationHolds_is left right
  · obtain ⟨distance, hdistance⟩ : ∃ distance, relationDistance? relation = some distance := by
      simp only [relationNames, List.mem_cons, his, List.not_mem_nil, or_false, false_or]
        at hrelation
      rcases hrelation with rfl | rfl | rfl | rfl | rfl
      all_goals exact ⟨_, rfl⟩
    have hiff : RelationOverflows left relation right ↔ ¬left.FitsFloat ∨ ¬right.FitsFloat := by
      simp [RelationOverflows, his]
    rw [hiff]
    rcases H.relationHolds_distance hdistance left right with
      ⟨hlarge, hfault⟩ | ⟨hleft, hright, hholds⟩
    · exact .inl ⟨hlarge, hfault⟩
    · exact .inr ⟨by simp [hleft, hright], hholds⟩

end World

end TileScript
