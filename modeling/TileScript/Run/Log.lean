import TileScript.Evaluation
import TileScript.World.Edit

/-!
# Runs and their log

A run acts on a world and keeps a log. Every line of the log has a role, so that what a statement
reports can be told from traces and from the failures of a listener. A run may stop by a fault, or
because a loop has no end. It does not stop because the host has no more room: see `nestingLimit`.

## Main definitions

* `Settings`, `Listener`: what stays the same during a run.
* `RunState`, `LogLine`, `Event`: what a run leaves behind.
* `Run`: actions of a run.
* `Run.emit`, `Run.logError`, `Run.trace`, `Run.notify`: writing.
* `Run.value`, `Run.change`: evaluating expressions and changing the world.
* `Run.attempt`: an action whose fault is logged and goes no further.
-/

namespace TileScript

/-- Who wrote a line of the log. -/
inductive LineRole where
  /-- A statement reports what it did. -/
  | report
  /-- A fault is reported. -/
  | fault
  /-- A line for tracing, present only if tracing is on. -/
  | trace
  /-- The listener failed. -/
  | listener
deriving DecidableEq

/-- A line of the log. -/
structure LogLine where
  role : LineRole
  text : String
deriving DecidableEq

/-- What a listener is told after a change: the world as it is, and all output so far. -/
structure Event where
  name : String
  canvas : Canvas
  board : Board
  objects : Table Scalar TileObject
  output : String

/-- What happens to events. -/
inductive Listener where
  /-- Nobody listens. -/
  | absent
  /-- Every event is kept. -/
  | recording
  /-- The listener fails on every event, for a reason that depends on the event's name. -/
  | failing (reason : String → String)

/-- What stays the same during a run: whether it is traced, who listens, the random draws, and the
marks before the lines of faults and traces. -/
structure Settings where
  debug : Bool
  listener : Listener
  draw : Nat → Scalar
  faultMark : String
  traceMark : String

/-- What a run has done so far. -/
structure RunState where
  world : World
  log : Array LogLine
  drawn : Nat
  events : Array Event

namespace RunState

/-- The state before a run on a world. -/
def start (world : World) : RunState := ⟨world, #[], 0, #[]⟩

/-- The text of the log, each line with its end. -/
def output (state : RunState) : String :=
  String.join (state.log.toList.map (·.text ++ "\n"))

/-- The state with a line added to the log. -/
def write (state : RunState) (role : LineRole) (text : String) : RunState :=
  { state with log := state.log.push ⟨role, text⟩ }

/-- The event that tells of the state as it is. -/
def event (state : RunState) (name : String) : Event :=
  ⟨name, state.world.canvas, state.world.board, state.world.objects, state.output⟩

end RunState

/-- Why a run stops before its end. -/
inductive Stop where
  | fault (fault : Fault)
  /-- A loop without limit never ends. -/
  | endless
deriving DecidableEq

/-- An action of a run. What was done before a stop remains done. -/
abbrev Run := ExceptT Stop (StateM RunState)

namespace Run

/-- Goes on with a result, or stops by its fault. -/
def ofExcept {α : Type} : Except Fault α → Run α
  | .ok a => pure a
  | .error fault => throw (.fault fault)

/-- Adds a line to the log. -/
def write (role : LineRole) (text : String) : Run Unit := modify (·.write role text)

/-- Reports a line. A line that cannot be written is a fault. -/
def emit (pieces : List Scalar) : Run Unit := do
  let line ← ofExcept (Scalar.line pieces)
  write .report line

/-- Logs a fault of the program. -/
def logError (settings : Settings) (message : String) : Run Unit :=
  write .fault (settings.faultMark ++ " " ++ message)

/-- Traces a line, which has to be one that can be written even if nothing is traced. -/
def trace (settings : Settings) (pieces : List Scalar) : Run Unit := do
  let line ← ofExcept (Scalar.line pieces)
  if settings.debug then write .trace (settings.traceMark ++ " " ++ line)

/-- Tells the listener of a change. -/
def notify (settings : Settings) (name : String) : Run Unit :=
  match settings.listener with
  | .absent => pure ()
  | .recording => modify fun state => { state with events := state.events.push (state.event name) }
  | .failing reason =>
    write .listener (settings.faultMark ++ " Notify callback failed: " ++ reason name)

/-- Evaluates an expression. A fault is logged, and the value is zero then. -/
def value (settings : Settings) (node : Node) : Run Scalar := do
  let state ← get
  let env : Env := ⟨state.world.vars, settings.draw⟩
  let (result, after) := (evaluate env 0 node).run ⟨#[], state.drawn⟩
  set { state with drawn := after.drawn }
  if settings.debug then
    modify fun state => after.trace.foldl
      (fun state line => state.write .trace (settings.traceMark ++ " " ++ line)) state
  match result with
  | .ok value => return value
  | .error fault =>
    logError settings ("Error evaluating value: " ++ fault.message)
    return .int 0

/-- Evaluates an expression unless it is missing. -/
def optionalValue (settings : Settings) (node : Node) : Run Scalar :=
  if node.isAbsent then pure .null else value settings node

/-- Changes the world. A change that fails may have come part of its way. -/
def change {α : Type} (operation : World → Outcome α) : Run α := do
  let state ← get
  let (world, result) := operation state.world
  set { state with world }
  ofExcept result

/-- Sets a variable. -/
def setVariable (name : String) (value : Scalar) : Run Unit :=
  modify fun state => { state with
    world := { state.world with vars := state.world.vars.insert name value } }

/-- Binds a key. -/
def setAssignment (key : String) (value : Scalar) : Run Unit :=
  modify fun state => { state with
    world := { state.world with assignments := state.world.assignments.insert key value } }

/-- Logs a fault: that of a program as such, any other with its kind. -/
def report (settings : Settings) (fault : Fault) : Run Unit :=
  if fault.kind = .value then logError settings fault.message
  else write .fault ("Interpreter Error: " ++ fault.kind.name ++ ": " ++ fault.message)

/-- Does an action; a fault is logged and goes no further. -/
def attempt (settings : Settings) (action : Run Unit) : Run Unit :=
  tryCatch action fun stop => match stop with
    | .fault fault => report settings fault
    | .endless => throw .endless

/-- Does an action for `times` indices, the first of which is `start`. -/
def iterate (action : Nat → Run Unit) (start : Nat) : Nat → Run Unit
  | 0 => pure ()
  | times + 1 => do
    action start
    iterate action (start + 1) times

end Run

end TileScript
