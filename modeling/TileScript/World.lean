import TileScript.Board
import TileScript.Table

/-!
# Worlds

A world is the size of the canvas, the board, the records of the objects on it, the variables and
the keys bound to objects. The records say for every object where it stands and in which state it
is; the board holds the ids tile by tile. Hosts may supply any part of a world beforehand.

## Main definitions

* `TileObject`, `Canvas`, `World`: the data.
* `Context`, `World.ofContext`: parts supplied by a host.
* `Context.retain`: what the host's parts are after a run.
* `World.relationHolds`: the relations between two objects.
-/

namespace TileScript

/-- The record of an object. -/
structure TileObject where
  id : Scalar
  x : Scalar
  y : Scalar
  state : Scalar
deriving DecidableEq

/-- A record on one line. -/
def TileObject.display (object : TileObject) : Except Fault String :=
  Scalar.line ["TileObject(id=", object.id, ", x=", object.x, ", y=", object.y, ", state=",
    object.state, ")"]

/-- Equality of records, field by field. -/
def TileObject.same (a b : TileObject) : Bool :=
  a.id.same b.id && a.x.same b.x && a.y.same b.y && a.state.same b.state

/-- The size of the canvas as far as it is known. -/
structure Canvas where
  width? : Option Scalar
  height? : Option Scalar
deriving DecidableEq

namespace Canvas

/-- The canvas of a world that has none yet. -/
def none : Canvas := ⟨some (.int 0), some (.int 0)⟩

/-- The width; zero where it is not known. -/
def width (canvas : Canvas) : Scalar := canvas.width?.getD (.int 0)

/-- The height; zero where it is not known. -/
def height (canvas : Canvas) : Scalar := canvas.height?.getD (.int 0)

end Canvas

/-- The state that programs act on. -/
structure World where
  canvas : Canvas
  board : Board
  objects : Table Scalar TileObject
  vars : Table String Scalar
  assignments : Table String Scalar

namespace World

/-- The world before any statement. -/
def empty : World := ⟨.none, [], .empty, .empty, .empty⟩

/-- The size of the canvas in words. -/
def sizeText (world : World) : Except Fault String :=
  Scalar.line [world.canvas.width, "x", world.canvas.height]

end World

/-! ## Parts supplied by a host -/

/-- The fields of a record that a host gives. -/
structure ObjectFields where
  id? : Option Scalar
  x? : Option Scalar
  y? : Option Scalar
  state? : Option Scalar

namespace ObjectFields

/-- The record of given fields. Only the state may be missing; it is zero then. -/
def toObject (fields : ObjectFields) : Except Fault TileObject :=
  match fields.id?, fields.x?, fields.y? with
  | none, _, _ => .error (.missingField "id")
  | _, none, _ => .error (.missingField "x")
  | _, _, none => .error (.missingField "y")
  | some id, some x, some y => .ok ⟨id, x, y, fields.state?.getD (.int 0)⟩

/-- The fields of a record. -/
def ofObject (object : TileObject) : ObjectFields :=
  ⟨some object.id, some object.x, some object.y, some object.state⟩

end ObjectFields

/-- The parts of a world that a host supplies. -/
structure Context where
  canvas? : Option Canvas
  board? : Option Board
  objects? : Option (Table Scalar ObjectFields)
  vars? : Option (Table String Scalar)
  assignments? : Option (Table String Scalar)

/-- The records of a context. -/
def Context.objects (context : Context) : Except Fault (Table Scalar TileObject) :=
  match context.objects? with
  | none => .ok .empty
  | some table => do
    let entries ← table.entries.mapM fun (key, fields) => do
      let object ← fields.toObject
      return (key, object)
    return ⟨entries⟩

/-- The world of a context; parts that are not supplied are those of the empty world. -/
def World.ofContext (context : Context) : Except Fault World := do
  let objects ← context.objects
  return ⟨context.canvas?.getD .none, context.board?.getD [], objects,
    context.vars?.getD .empty, context.assignments?.getD .empty⟩

/-- The context after a run that ended with the given world: the parts that the host supplied are
as the run left them, and the others are still not supplied. -/
def Context.retain (context : Context) (world : World) : Context :=
  { canvas? := context.canvas?.map fun _ => world.canvas
    board? := context.board?.map fun _ => world.board
    objects? := context.objects?.map fun _ =>
      ⟨world.objects.entries.map fun (key, object) => (key, .ofObject object)⟩
    vars? := context.vars?.map fun _ => world.vars
    assignments? := context.assignments?.map fun _ => world.assignments }

/-- A context that supplies every part of a world. -/
def Context.ofWorld (world : World) : Context :=
  { canvas? := some world.canvas
    board? := some world.board
    objects? := some
      ⟨world.objects.entries.map fun (key, object) => (key, .ofObject object)⟩
    vars? := some world.vars
    assignments? := some world.assignments }

/-! ## Relations -/

/-- The steps of the directions, columns before rows. -/
def directionStep? : Scalar → Option (Int × Int)
  | .text "left" => some (-1, 0)
  | .text "right" => some (1, 0)
  | .text "up" | .text "over" => some (0, -1)
  | .text "down" | .text "under" => some (0, 1)
  | _ => none

/-- Whether a value stands next to another, at the given distance above it. -/
def Scalar.isBeyond (a b : Scalar) (distance : Int) : Except Fault Bool := do
  let place ← b.add (.int distance)
  return a.same place

/-- Whether a value stands one below another. The subtraction has its own fault for texts. -/
def Scalar.isBefore (a b : Scalar) : Except Fault Bool := do
  let place ← b.sub (.int 1)
  return a.same place

/-- Whether two records are in a relation other than identity. The columns or rows that have to
agree are compared first. -/
def TileObject.related (a : TileObject) (relation : String) (b : TileObject) :
    Except Fault Bool :=
  if relation = "on" then .ok (a.x.same b.x && a.y.same b.y)
  else if relation = "under" then
    if a.x.same b.x then a.y.isBeyond b.y 1 else .ok false
  else if relation = "over" then
    if a.x.same b.x then a.y.isBefore b.y else .ok false
  else if relation = "left" then
    if a.y.same b.y then a.x.isBefore b.x else .ok false
  else
    if a.y.same b.y then a.x.isBeyond b.x 1 else .ok false

/-- The record of a value that is a number and the id of an object. -/
def World.object? (world : World) (id : Scalar) : Except Fault (Option TileObject) := do
  return if ← id.isNumber then world.objects.get? id else none

/-- Whether a relation holds between two ids. Identity is about the numbers alone; the others are
about the places of two objects and fail if one of them is missing. -/
def World.relationHolds (world : World) (left relation right : Scalar) : Except Fault Bool := do
  match relation with
  | .text "is" =>
    if ← left.isNumber then
      if ← right.isNumber then return left.same right
    return false
  | .text name =>
    if ["on", "under", "over", "left", "right"].contains name then
      let a ← world.object? left
      let b ← world.object? right
      match a, b with
      | some a, some b => a.related name b
      | _, _ => return false
    else throw (.unknownRelation relation)
  | _ => throw (.unknownRelation relation)

end TileScript
