import TileScript.Run.Log

/-!
# Statements

What the statements do that are the same in all runs. Conditions, loops and key bindings differ
between runs from start to end and runs tick by tick; only the tests they share are here.

## Main definitions

* `Run.canvas`, `Run.define`, `Run.compute`, `Run.spawn`, `Run.despawn`, `Run.move`, `Run.wait`:
  the statements.
* `Run.plain?`: the statements that may stand in every block.
* `Run.spatialCondition`: whether two objects are in a relation.
* `Run.watchers`: the conditions that test a key.
-/

namespace TileScript.Run

/-- Sets the size of the board. -/
def canvas (settings : Settings) (width height : Scalar) : Run Unit := do
  let dropped ← change (·.resize width height)
  emit ["Canvas initialized: ", width, "x", height]
  unless dropped.isEmpty do
    emit ["Dropped objects outside the canvas: ", ",".intercalate dropped]
  notify settings "canvas"

/-- Sets a variable to the value of an expression. -/
def define (settings : Settings) (name : String) (node : Node) : Run Unit := do
  let value ← value settings node
  setVariable name value
  emit ["Variable ", name, " set to ", value]

/-- Reports the value of an expression. -/
def compute (settings : Settings) (node : Node) : Run Unit := do
  let value ← value settings node
  emit ["Result: ", value]

/-- The record of an object that is known to be there. -/
def recordOf (id : Scalar) : Run TileObject := do
  let state ← get
  match state.world.objects.get? id.normalize with
  | some object => return object
  | none => throw (.fault (.missingObject id))

/-- Puts an object on the board. -/
def spawn (settings : Settings) (id x y objectState : Node) : Run Unit := do
  let id ← value settings id
  let x ← value settings x
  let y ← value settings y
  let objectState ← value settings objectState
  let evicted ← change (·.spawn id x y objectState)
  let object ← recordOf id
  unless evicted.isEmpty do
    emit ["Replaced existing objects ", ",".intercalate evicted, " with id=", object.id, " at (",
      object.x, ",", object.y, ")"]
  emit ["Spawned id=", object.id, " at (", object.x, ",", object.y, ") state=", object.state]
  notify settings "spawn"

/-- Takes an object off the board. -/
def despawn (settings : Settings) (id : Node) : Run Unit := do
  let id ← value settings id
  let object ← change (·.despawn id)
  emit ["Despawned id=", object.id]
  notify settings "despawn"

/-- Moves an object. -/
def move (settings : Settings) (id x y : Node) (direction : Scalar) (objectState : Node)
    (swap : Scalar) : Run Unit := do
  let id ← value settings id
  let x ← optionalValue settings x
  let y ← optionalValue settings y
  let objectState ← optionalValue settings objectState
  let moved ← change (·.move id direction x y objectState swap)
  let object ← recordOf id
  let place : List Scalar :=
    ["Moved id=", object.id, " to (", .int moved.newX, ",", .int moved.newY, ")"]
  let step : List Scalar := if direction.truthy then [" ", direction] else []
  let change : List Scalar :=
    if objectState = .null then [] else [" set state=", object.state]
  let exchange : List Scalar := if swap.truthy then [" with swap"] else []
  emit (place ++ step ++ change ++ exchange)
  notify settings "move"

/-- Waits, which only the log shows. -/
def wait (duration : Scalar) : Run Unit := do
  if ← ofExcept duration.isNumber then emit ["Waited ", duration, " ms"]
  else throw (.fault (.invalidDuration duration))

/-- The statements that may stand in every block. -/
def plain? (settings : Settings) : Node → Option (Run Unit)
  | .define name value => some (define settings name value)
  | .compute expr => some (compute settings expr)
  | .spawn id x y state => some (spawn settings id x y state)
  | .despawn id => some (despawn settings id)
  | .move id x y direction state swap => some (move settings id x y direction state swap)
  | .wait duration => some (wait duration)
  | _ => none

/-- Whether a relation holds between an id and the value of an expression. A relation that is not
known is logged and does not hold. -/
def spatialCondition (settings : Settings) (left relation : Scalar) (right : Node) : Run Bool := do
  let right ← value settings right
  let state ← get
  match state.world.relationHolds left relation right with
  | .ok holds => return holds
  | .error fault =>
    if fault.kind = .value then
      logError settings fault.message
      return false
    else throw (.fault fault)

/-- The conditions of a program that test a key: what names the object, and the block. -/
def watchers (program : List Node) (key : String) : List (Node × List Node) :=
  program.filterMap fun node => match node with
    | .branch left relation _ tested whenTrue _ =>
      if relation.same "assigned" && tested.same key then some (left, whenTrue) else none
    | _ => none

/-- The two truth values in reports. -/
def truthText (condition : Bool) : String := if condition then "true" else "false"

end TileScript.Run
