import TileScript.World

/-!
# Changes to worlds

Resizing the board, and spawning, despawning and moving objects. A change first checks everything
that can be checked without touching the world, and then carries its plan out. On worlds that
programs make, carrying out does not fail; on boards supplied by a host it may meet a missing tile
or a text that is no id, and the world is then left as far as the change had come. Each operation
therefore gives the new world beside its result. The memory that a board takes is outside the model:
see `nestingLimit`.

## Main definitions

* `Outcome`: the new world and the result.
* `World.resize`, `World.spawn`, `World.despawn`, `World.move`: the changes.
-/

namespace TileScript

/-- The world after an attempted change, and the result or the fault. -/
abbrev Outcome (α : Type) := World × Except Fault α

/-- The number that the text of an id stands for. -/
def parseId (text : String) : Except Fault Scalar :=
  match Text.readInteger text with
  | .ok n => .ok (.int n)
  | .error _ => do
    let x ← Text.readFloat text
    return (Scalar.float x).normalize

/-- The id that a value is, in its normal form. -/
def requireId (action : String) (id : Scalar) : Except Fault Scalar := do
  if ← id.isNumber then return id.normalize else throw (.invalidId action id)

namespace World

/-! ## Resizing -/

/-- What putting objects back on a new board gives: the board, the entries that are still recorded,
the ids dropped, and the fault that stopped it, if one did. -/
structure Restacked where
  board : Board
  kept : List (Scalar × TileObject)
  dropped : List String
  fault? : Option Fault

/-- Puts objects back on a board in their order; those that lie outside are dropped. A fault leaves
the entries that were not reached recorded, but no longer the one being dropped. -/
def restack (board : Board) : List (Scalar × TileObject) → Restacked
  | [] => ⟨board, [], [], none⟩
  | (key, object) :: rest =>
    match board.locate object.x object.y, Scalar.line [key] with
    | .error fault, _ => ⟨board, (key, object) :: rest, [], some fault⟩
    | .ok (some _), .error fault => ⟨board, (key, object) :: rest, [], some fault⟩
    | .ok none, .error fault => ⟨board, rest, [], some fault⟩
    | .ok (some (column, row)), .ok name =>
      let after := restack (board.modifyTile column row (· ++ [name])) rest
      { after with kept := (key, object) :: after.kept }
    | .ok none, .ok name =>
      let after := restack board rest
      { after with dropped := name :: after.dropped }

/-- The size that a pair of values gives a board. -/
def planResize (width height : Scalar) : Except Fault (Nat × Nat) := do
  match ← Scalar.gridTile? width height with
  | none => throw (.invalidDimensions width height)
  | some (columns, rows) =>
    if columns ≤ 0 ∨ rows ≤ 0 then throw (.dimensionsNotPositive width height)
    else return (columns.toNat, rows.toNat)

/-- Replaces the board by an empty one of the given size and puts the objects that fit back. The
result is the ids of those that do not. -/
def resize (world : World) (width height : Scalar) : Outcome (List String) :=
  match planResize width height with
  | .error fault => (world, .error fault)
  | .ok (columns, rows) =>
    let after := restack (.blank columns rows) world.objects.entries
    ({ world with
        canvas := ⟨some (.int columns), some (.int rows)⟩
        board := after.board
        objects := ⟨after.kept⟩ },
      match after.fault? with
      | some fault => .error fault
      | none => .ok after.dropped)

/-! ## Spawning -/

/-- A checked placement: the id, its text, and the tile. -/
structure Placement where
  id : Scalar
  name : String
  column : Nat
  row : Nat

/-- Checks a placement. -/
def planSpawn (world : World) (id x y : Scalar) : Except Fault Placement := do
  let id ← requireId "spawn" id
  match ← Scalar.gridTile? x y with
  | none => throw (.invalidCoordinates x y)
  | some (column, row) =>
    match world.board.locateIndex? column row with
    | none =>
      throw (.placementOutside id column row world.canvas.width world.canvas.height)
    | some (column, row) =>
      let name ← Scalar.line [id]
      return ⟨id, name, column, row⟩

/-- Removes the records of the given ids. -/
def evict (objects : Table Scalar TileObject) :
    List String → Table Scalar TileObject × Except Fault Unit
  | [] => (objects, .ok ())
  | name :: rest =>
    match parseId name with
    | .error fault => (objects, .error fault)
    | .ok id => evict (objects.erase id) rest

/-- Puts an object on a tile, or puts it there anew. Its id is taken off every tile, and whatever
else stands on the tile is removed with its record. The result is the ids removed. -/
def spawn (world : World) (id x y state : Scalar) : Outcome (List String) :=
  match world.planSpawn id x y with
  | .error fault => (world, .error fault)
  | .ok ⟨id, name, column, row⟩ =>
    let board := world.board.scrub name
    match board.tile? column row with
    | none => ({ world with board }, .error .outsideRow)
    | some evicted =>
      match evict world.objects evicted with
      | (objects, .error fault) => ({ world with board, objects }, .error fault)
      | (objects, .ok ()) =>
        let object : TileObject := ⟨id, .int column, .int row, state.normalize⟩
        ({ world with
            board := board.modifyTile column row fun _ => [name]
            objects := objects.insert id object },
          .ok evicted)

/-! ## Despawning -/

/-- Checks a removal: the id, its record, its text, and its tile if its text is on it. -/
def planDespawn (world : World) (id : Scalar) :
    Except Fault (Scalar × TileObject × String × Option (Nat × Nat)) := do
  let id ← requireId "despawn" id
  match world.objects.get? id with
  | none => throw (.nothingToRemove id)
  | some object =>
    match ← world.board.locate object.x object.y with
    | none =>
      let name ← Scalar.line [id]
      return (id, object, name, none)
    | some (column, row) =>
      let name ← Scalar.line [id]
      match world.board.tile? column row with
      | none => throw .outsideRow
      | some tile =>
        return (id, object, name, if tile.contains name then some (column, row) else none)

/-- Takes a text off the tile where it is recorded, or else off every tile. -/
def lift (board : Board) (name : String) : Option (Nat × Nat) → Board
  | some (column, row) => board.modifyTile column row (·.erase name)
  | none => board.scrub name

/-- Removes an object. The result is its record. -/
def despawn (world : World) (id : Scalar) : Outcome TileObject :=
  match world.planDespawn id with
  | .error fault => (world, .error fault)
  | .ok (id, object, name, place) =>
    ({ world with board := lift world.board name place, objects := world.objects.erase id },
      .ok object)

/-! ## Moving -/

/-- Where a move takes an object: a step in the direction first, and given coordinates in its
place. -/
def targetPosition (object : TileObject) (direction x y : Scalar) :
    Except Fault (Scalar × Scalar) := do
  let (column, row) ←
    if direction.truthy then
      match directionStep? direction with
      | none => throw (.unknownDirection direction)
      | some (dx, dy) => do
        let column ← object.x.add (.int dx)
        let row ← object.y.add (.int dy)
        pure (column, row)
    else pure (object.x, object.y)
  return (if x = .null then column else x, if y = .null then row else y)

/-- A checked move: the mover, its text, its old tile if it is on the board, and the new one. -/
structure Journey where
  id : Scalar
  name : String
  object : TileObject
  start? : Option (Nat × Nat)
  /-- Whether the text of the mover is on its old tile. -/
  present : Bool
  column : Nat
  row : Nat

/-- Checks a move. -/
def planMove (world : World) (id direction x y : Scalar) : Except Fault Journey := do
  let id ← requireId "move" id
  match world.objects.get? id with
  | none => throw (.nothingToMove id)
  | some object =>
    let (x, y) ← targetPosition object direction x y
    match ← Scalar.gridTile? x y with
    | none => throw (.invalidTarget x y)
    | some (column, row) =>
      match world.board.locateIndex? column row with
      | none => throw (.targetOutside column row world.canvas.width world.canvas.height)
      | some (column, row) =>
        let start? ← world.board.locate object.x object.y
        let name ← Scalar.line [id]
        match start? with
        | none => return ⟨id, name, object, none, false, column, row⟩
        | some (startColumn, startRow) =>
          match world.board.tile? startColumn startRow with
          | none => throw .outsideRow
          | some tile =>
            return ⟨id, name, object, some (startColumn, startRow), tile.contains name,
              column, row⟩

/-- Gives the objects on a tile the place of the mover. The texts come to the mover's old tile one
by one, each before its record is found. -/
def displace (board : Board) (objects : Table Scalar TileObject) (start : Nat × Nat)
    (x y : Scalar) : List String → Board × Table Scalar TileObject × Except Fault Unit
  | [] => (board, objects, .ok ())
  | name :: rest =>
    let board := board.modifyTile start.1 start.2 (· ++ [name])
    match parseId name with
    | .error fault => (board, objects, .error fault)
    | .ok id =>
      displace board (objects.modify id fun other => { other with x, y }) start x y rest

/-- What a move did: the old place, the new one, and the ids that were swapped. -/
structure Moved where
  oldX : Scalar
  oldY : Scalar
  newX : Nat
  newY : Nat
  swapped : List String

/-- Puts the mover on its new tile and its record in order. -/
def settle (world : World) (journey : Journey) (state : Scalar) : World :=
  { world with
    board := world.board.modifyTile journey.column journey.row (· ++ [journey.name])
    objects := world.objects.modify journey.id fun object =>
      { object with
        x := .int journey.column
        y := .int journey.row
        state := if state = .null then object.state else state.normalize } }

/-- Moves an object, and with a swap whatever stands on its new tile to its old one. A state is set
if one is given. -/
def move (world : World) (id direction x y state swap : Scalar) : Outcome Moved :=
  match world.planMove id direction x y with
  | .error fault => (world, .error fault)
  | .ok journey =>
    let oldX := journey.object.x
    let oldY := journey.object.y
    let lifted := { world with
      board := lift world.board journey.name (if journey.present then journey.start? else none) }
    match lifted.board.tile? journey.column journey.row with
    | none => (lifted, .error .outsideRow)
    | some target =>
      let elsewhere :=
        !(oldX.same (.int journey.column) && oldY.same (.int journey.row))
      match journey.start? with
      | some start =>
        if swap.truthy && elsewhere then
          let cleared := lifted.board.modifyTile journey.column journey.row fun _ => []
          match displace cleared lifted.objects start oldX oldY target with
          | (board, objects, .error fault) => ({ lifted with board, objects }, .error fault)
          | (board, objects, .ok ()) =>
            (({ lifted with board, objects } : World).settle journey state,
              .ok ⟨oldX, oldY, journey.column, journey.row, target⟩)
        else
          (lifted.settle journey state, .ok ⟨oldX, oldY, journey.column, journey.row, []⟩)
      | none =>
        (lifted.settle journey state, .ok ⟨oldX, oldY, journey.column, journey.row, []⟩)

end World

end TileScript
