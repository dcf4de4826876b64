import TileScript.Run.Statement

/-!
# Runs tick by tick

A host drives the run. The setup statements run once; each loop at the top of the program becomes a
process, and every tick runs one round of each process that is not finished. A tick first takes the
values of keys that the host supplies, and a key that has just become pressed interrupts: every
condition of the program that tests the key for an object bound to it runs its block.

A tick never fails. A fault in it is logged, and the tick then counts as the end.

## Main definitions

* `Process`: a loop of the program and the number of rounds it has run.
* `Session`: a run tick by tick between two calls of its host.
* `Session.create`, `Session.setUp`, `Session.step`, `Session.pressKey`: the host's calls.
* `Session.drive`: a number of ticks with scheduled keys.
-/

namespace TileScript

/-- The settings of runs tick by tick. -/
def Settings.stepwise (debug : Bool) (listener : Listener) (draw : Nat → Scalar) : Settings :=
  { debug, listener, draw, faultMark := "[TBT-STEPWISE]", traceMark := "[TBT-STEPWISE]" }

/-- The value of a key that is held down. -/
def pressed : Scalar := .int 1

namespace Stepwise

open Run

/-- The expressions to which the program binds a key, in the order of the program. -/
def boundNodes (program : List Node) (key : String) : List Node :=
  program.filterMap fun node => match node with
    | .assign name value => if name = key then some value else none
    | _ => none

/-- The values of all expressions to which the program binds a key. -/
def boundIds (settings : Settings) (program : List Node) (key : String) : Run (List Scalar) :=
  (boundNodes program key).mapM (value settings)

/-- Whether a key is held down and the program binds it to an id. -/
def heldFor (settings : Settings) (program : List Node) (key id : Scalar) : Run Bool := do
  match key with
  | .text name =>
    let state ← get
    if (state.world.assignments.get? name).any (·.same pressed) then
      let ids ← boundIds settings program name
      return ids.any (·.same id)
    else return false
  | _ => return false

/-- The condition of a branch, and the words for it. -/
def condition (settings : Settings) (program : List Node) (left : Node) (relation : Scalar)
    (right : Node) (key : Scalar) : Run (Bool × List Scalar) := do
  let left ← value settings left
  if relation.same "assigned" then
    let held ← heldFor settings program key left
    return (held, ["assigned ", key])
  else
    let holds ← spatialCondition settings left relation right
    return (holds, [relation])

/-- A branch, which only a trace reports. -/
def branch (settings : Settings) (program : List Node) (left : Node) (relation : Scalar)
    (right : Node) (key : Scalar) (whenTrue whenFalse : Run Unit) : Run Unit := do
  let (holds, words) ← condition settings program left relation right key
  trace settings (.text "If condition (" :: words ++ [.text ") is ", .text (truthText holds)])
  if holds then whenTrue else whenFalse

mutual

/-- Runs a statement of a block. The canvas, loops and bindings have no place in blocks. -/
def statement (settings : Settings) (program : List Node) : Node → Run Unit
  | .branch left relation right key whenTrue whenFalse =>
    attempt settings (branch settings program left relation right key
      (block settings program whenTrue) (block settings program whenFalse))
  | node =>
    match plain? settings node with
    | some action => attempt settings action
    | none => logError settings ("Unsupported statement in stepwise block: " ++ node.className)

/-- Runs the statements of a block in turn. -/
def block (settings : Settings) (program : List Node) : List Node → Run Unit
  | [] => pure ()
  | node :: rest => do
    statement settings program node
    block settings program rest

end

/-- Binds a key during the setup. -/
def assign (settings : Settings) (key : String) (node : Node) : Run Unit := do
  let value ← value settings node
  setAssignment key value
  trace settings ["Assignment during init: key=", key, " -> value=", value]

/-- The statements that belong to the setup. -/
def setup? (settings : Settings) : Node → Option (Run Unit)
  | .canvas width height => some (canvas settings width height)
  | .spawn id x y state => some (spawn settings id x y state)
  | .assign key value => some (assign settings key value)
  | .define name value => some (define settings name value)
  | _ => none

/-- Runs a statement if it belongs to the setup. -/
def setupStatement (settings : Settings) (node : Node) : Run Unit :=
  match setup? settings node with
  | some action => attempt settings action
  | none => trace settings ["Skipping non-init node type: ", node.className]

/-- The interrupts of one key: for every id bound to it, every condition that tests the key for that
id runs its block. -/
def interrupt (settings : Settings) (program : List Node) (key : String) : Run Unit := do
  trace settings ["Key press edge detected: ", key]
  let ids ← boundIds settings program key
  ids.forM fun bound =>
    (watchers program key).forM fun (left, whenTrue) => do
      let id ← value settings left
      if id.same bound then
        trace settings
          ["Interrupt: running true block of if assigned ", key, " for id=", bound]
        block settings program whenTrue

/-- Whether a key has just become pressed. -/
def isEdge (previous : Table String Scalar) (key : String) (value : Scalar) : Bool :=
  value.same pressed && !(previous.get? key).any (·.same pressed)

/-- The interrupts of all keys that have just become pressed, in the order of the keys. -/
def interrupts (settings : Settings) (program : List Node) (previous : Table String Scalar) :
    Run Unit := do
  let state ← get
  state.world.assignments.entries.forM fun (key, value) => do
    if isEdge previous key value then interrupt settings program key

/-- Takes the values of keys that the host supplies. -/
def receive (settings : Settings) (inputs : Table String Scalar) : Run Unit := do
  inputs.entries.forM fun (key, value) => do
    let state ← get
    let old := (state.world.assignments.get? key).getD .null
    unless old.same value do
      trace settings ["Assignment change: ", key, " ", old, " -> ", value]
  modify fun state => { state with
    world := { state.world with assignments := state.world.assignments.update inputs } }

end Stepwise

/-- A loop at the top of a program and the number of rounds it has run. -/
structure Process where
  count : Scalar
  body : List Node
  rounds : Nat

namespace Process

/-- The processes of a program. -/
def ofProgram (program : List Node) : List Process :=
  program.filterMap fun node => match node with
    | .loop _ count body => some ⟨count, body, 0⟩
    | _ => none

/-- How many rounds a process runs; `none` without end. A loop without a count runs once. -/
def limit? (process : Process) : Option Scalar :=
  if process.count.same "forever" then none
  else if process.count = .null then some (.int 1)
  else some process.count

/-- Whether a process has run all its rounds. Only numbers can tell. -/
def isFinished (process : Process) : Except Fault Bool :=
  match process.limit? with
  | none => .ok false
  | some limit =>
    match limit.number? with
    | some number => .ok (number.le (.int process.rounds))
    | none => .error (.order ">=" .int limit.kind)

/-- One more round, unless the process is finished. Gives the process after it. -/
def advance (settings : Settings) (program : List Node) (process : Process) :
    Run (Option Process) := do
  if ← Run.ofExcept process.isFinished then return none
  Run.trace settings ["Processing repeat iteration ", .int (process.rounds + 1), "/",
    process.limit?.getD "∞"]
  Stepwise.block settings program process.body
  return some { process with rounds := process.rounds + 1 }

/-- One more round of every process that is not finished, and whether there was one. A stop leaves
the processes after it as they were. -/
def advanceAll (settings : Settings) (program : List Node) :
    List Process → StateM RunState (List Process × Except Stop Bool)
  | [] => return ([], .ok false)
  | process :: rest => do
    match ← (process.advance settings program).run with
    | .error stop => return (process :: rest, .error stop)
    | .ok moved =>
      let (others, active) ← advanceAll settings program rest
      return (moved.getD process :: others, (moved.isSome || ·) <$> active)

end Process

/-- A run tick by tick between two calls of its host. -/
structure Session where
  settings : Settings
  program : List Node
  state : RunState
  processes : List Process
  isSetUp : Bool
  previous : Table String Scalar

namespace Session

/-- Does an action of the run. -/
def act (session : Session) (action : Run Unit) : Session × Except Stop Unit :=
  let (result, state) := action.run session.state
  ({ session with state }, result)

/-- A session on the empty world. -/
def create (settings : Settings) (program : List Node) : Session :=
  let session : Session := ⟨settings, program, .start .empty, [], false, .empty⟩
  (session.act (Run.trace settings
    ["StepInterpreter created with ", .int program.length, " AST nodes"])).1

/-- The setup: its statements run in turn. -/
def setupActions (settings : Settings) (program : List Node) : Run Unit := do
  Run.trace settings ["Initializing..."]
  program.forM (Stepwise.setupStatement settings)
  Run.trace settings
    ["Found ", .int (Process.ofProgram program).length, " repeat blocks to process"]

/-- Runs the setup once and makes the processes. -/
def setUp (session : Session) : Session :=
  if session.isSetUp then session
  else
    let (session, _) := session.act (setupActions session.settings session.program)
    { session with processes := Process.ofProgram session.program, isSetUp := true }

/-- The part of a tick before the processes. -/
def openTick (session : Session) (inputs : Table String Scalar) : Run Unit := do
  Stepwise.receive session.settings inputs
  Stepwise.interrupts session.settings session.program session.previous

/-- Logs what stopped a tick, which is the end then. -/
def fail (session : Session) (stop : Stop) : Session × Bool :=
  match stop with
  | .fault fault =>
    let (session, _) := session.act (Run.logError session.settings
      ("Error in step: " ++ fault.kind.name ++ ": " ++ fault.message))
    (session, true)
  | .endless => (session, true)

/-- One tick with the values of keys that the host supplies, and whether all is done: no process had
a round left to run. -/
def step (session : Session) (inputs : Table String Scalar) : Session × Bool :=
  let session := session.setUp
  match session.act (session.openTick inputs) with
  | (session, .error stop) => session.fail stop
  | (session, .ok ()) =>
    let session := { session with previous := session.state.world.assignments }
    let ((processes, active), state) :=
      (Process.advanceAll session.settings session.program session.processes).run session.state
    let session := { session with processes, state }
    match active with
    | .error stop => session.fail stop
    | .ok active => (session, !active)

/-- The directions of the keys that move objects. -/
def keyDirection? (key : String) : Option String :=
  [("w", "up"), ("a", "left"), ("s", "down"), ("d", "right")].lookup key

/-- Moves the object that a key is bound to one tile in the key's direction. -/
def keyMove (settings : Settings) (key : String) : Run Unit := do
  let state ← get
  match keyDirection? key, state.world.assignments.get? key with
  | some direction, some id =>
    if id != .null && state.world.objects.contains id then
      let (world, result) := state.world.move id direction .null .null .null (.bool false)
      set { state with world }
      match result with
      | .ok _ =>
        Run.emit ["[TBT] Moved id=", id, " ", direction, " by key '", key, "'"]
        Run.notify settings "move"
      | .error fault =>
        if fault.kind = .value then Run.logError settings fault.message
        else throw (.fault fault)
  | _, _ => pure ()

/-- The host's call for a key that moves an object. -/
def pressKey (session : Session) (key : String) : Session × Except Stop Unit :=
  session.act (keyMove session.settings key)

/-- Ticks until all is done, at most `left` of them; the first has the number `tick`. The keys of a
tick are those scheduled for its number. Gives whether all is done, if there was a tick, and the
number of the next one. -/
def driveFrom (keysAt : Int → Table String Scalar) (session : Session) (tick : Nat)
    (last? : Option Bool) : Nat → Session × Option Bool × Nat
  | 0 => (session, last?, tick)
  | left + 1 =>
    let (session, done) := session.step (keysAt tick)
    if done then (session, some true, tick + 1)
    else driveFrom keysAt session (tick + 1) (some false) left

/-- Sets up and ticks at most the given number of times. Gives whether all is done and the number of
ticks; without any tick all is done if there is no process. -/
def drive (keysAt : Int → Table String Scalar) (session : Session) (ticks : Nat) :
    Session × Bool × Nat :=
  let (session, last?, count) := driveFrom keysAt session.setUp 0 none ticks
  (session, last?.getD session.processes.isEmpty, count)

end Session

end TileScript
