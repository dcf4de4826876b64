import TileScript.Amount
import TileScript.Program.Printer
import TileScript.Run.Statement

/-!
# Runs from start to end

A program is run once from top to bottom, and loops run as many times as they say. Binding a key to
a value jumps at once into every condition of the program that tests that key for that value. While
such a jump is in progress, binding the same key again does not jump: jumps that are nested have
different keys, so that a run ends. How deeply it may nest before the host has no more room is
outside the model: see `nestingLimit`.

Statements are run relative to what a jump does. A jump in turn runs statements relative to jumps on
the keys that are still idle, and these get fewer.

## Main definitions

* `BatchOptions`: the limits on loops.
* `Batch.statement`, `Batch.block`: running statements, given what a jump does.
* `Batch.jump`: what a jump does, given the idle keys.
* `Batch.run`: a whole program.
-/

namespace TileScript

/-- The limits on loops: how often a loop without end runs, where nothing means no limit, and how
often a loop without a count runs. -/
structure BatchOptions where
  foreverLimit : Amount := .ofInt 1000
  defaultRepeat : Scalar := .int 10

/-- The settings of runs from start to end. -/
def Settings.batch (debug : Bool) (listener : Listener) (draw : Nat → Scalar) : Settings :=
  { debug, listener, draw, faultMark := "[INTERPRETER ERROR]", traceMark := "[INTERPRETER]" }

namespace Batch

open Run

/-- How often a loop without end runs; `none` without a limit. -/
def foreverTimes (limit : Amount) : Except Fault (Option Nat) :=
  if limit = .unspecified then .ok none
  else do
    let count ← limit.toCount
    return some count.toNat

/-- How often a loop with the given count runs. -/
def times (options : BatchOptions) (count : Scalar) : Except Fault Nat := do
  let number := if count = .null then options.defaultRepeat else count
  if ← number.isNumber then
    if ← number.less (.int 0) then throw (.invalidCount count)
    let n ← number.toInt
    return n.toNat
  else throw (.invalidCount count)

/-- One round of a loop. -/
def round (label : String) (delay : Scalar) (body : Run Unit) (index : Nat) : Run Unit := do
  emit ["Repeat iteration ", .int (index + 1), "/", label, " (delay ", delay, " ms)"]
  body
  emit ["Waited ", delay, " ms"]

/-- A loop. Without a limit its first round decides: what stops it is in every round, so that after
a round without a stop the loop has no end. -/
def loop (options : BatchOptions) (delay count : Scalar) (body : Run Unit) : Run Unit := do
  if count.same "forever" then
    match ← ofExcept (foreverTimes options.foreverLimit) with
    | none =>
      round "∞" delay body 0
      throw .endless
    | some limit =>
      iterate (round "∞" delay body) 0 limit
      emit ["Repeat forever stopped after ", .int limit, " iterations"]
  else
    let rounds ← ofExcept (times options count)
    iterate (round (toString rounds) delay body) 0 rounds

/-- The condition of a branch, and the words for it. A key is bound to the object if it has its id
as its value. -/
def condition (settings : Settings) (left : Node) (relation : Scalar) (right : Node)
    (key : Scalar) : Run (Bool × List Scalar) := do
  let left ← value settings left
  if relation.same "assigned" then
    unless key.truthy do throw (.fault .missingKey)
    let state ← get
    let bound := match key with
      | .text name => (state.world.assignments.get? name).any (·.same left)
      | _ => false
    return (bound, ["assigned ", key])
  else
    let holds ← spatialCondition settings left relation right
    return (holds, [relation])

/-- A branch. -/
def branch (settings : Settings) (left : Node) (relation : Scalar) (right : Node) (key : Scalar)
    (whenTrue whenFalse : Run Unit) : Run Unit := do
  let (holds, words) ← condition settings left relation right key
  emit (.text "If condition (" :: words ++ [.text ") is ", .text (truthText holds)])
  if holds then whenTrue else whenFalse

/-- Binds a key and jumps. -/
def assign (settings : Settings) (jump : String → Scalar → Run Unit) (key : String)
    (node : Node) : Run Unit := do
  let value ← value settings node
  setAssignment key value
  emit ["Assigned key '", key, "' to value ", value]
  jump key value

/-- A node that is no statement. One that cannot be shown is a fault of the block it stands in. -/
def unknown (settings : Settings) (node : Node) : Run Unit := do
  let shown ← ofExcept node.shown
  logError settings ("Unknown statement: " ++ shown)

mutual

/-- Runs a statement, given what a jump does. -/
def statement (settings : Settings) (options : BatchOptions)
    (jump : String → Scalar → Run Unit) : Node → Run Unit
  | .canvas width height => attempt settings (canvas settings width height)
  | .loop delay count body =>
    attempt settings (loop options delay count (block settings options jump body))
  | .branch left relation right key whenTrue whenFalse =>
    attempt settings (branch settings left relation right key
      (block settings options jump whenTrue) (block settings options jump whenFalse))
  | .assign key value => attempt settings (assign settings jump key value)
  | node =>
    match plain? settings node with
    | some action => attempt settings action
    | none => unknown settings node

/-- Runs the statements of a block in turn. -/
def block (settings : Settings) (options : BatchOptions)
    (jump : String → Scalar → Run Unit) : List Node → Run Unit
  | [] => pure ()
  | node :: rest => do
    statement settings options jump node
    block settings options jump rest

end

/-- The keys that are idle while a jump on the given one is in progress. -/
def without (idle : List String) (key : String) : List String := idle.filter (· != key)

theorem length_without_lt {idle : List String} {key : String} (h : key ∈ idle) :
    (without idle key).length < idle.length :=
  List.length_filter_lt_length_iff_exists.mpr ⟨key, h, by simp⟩

/-- What binding a key to a value does beyond the binding itself: unless a jump on the key is in
progress, every condition that tests it for the value runs its block. -/
def jump (settings : Settings) (options : BatchOptions) (program : List Node)
    (idle : List String) (key : String) (value : Scalar) : Run Unit :=
  if _ : key ∈ idle then
    (watchers program key).forM fun (left, whenTrue) => do
      let id ← Run.value settings left
      if id.same value then
        emit ["(assign-jump) If condition (assigned ", key, ") is true"]
        block settings options (jump settings options program (without idle key)) whenTrue
  else logError settings ("Skipping nested assign-jump for key '" ++ key ++ "'")
termination_by idle.length
decreasing_by exact length_without_lt (by assumption)

mutual

/-- The keys that a statement may bind. -/
def assignedKeys : Node → List String
  | .assign key _ => [key]
  | .loop _ _ body => assignedKeysAll body
  | .branch _ _ _ _ whenTrue whenFalse => assignedKeysAll whenTrue ++ assignedKeysAll whenFalse
  | _ => []

/-- The keys that the statements of a list may bind. -/
def assignedKeysAll : List Node → List String
  | [] => []
  | node :: rest => assignedKeys node ++ assignedKeysAll rest

end

/-- Runs a program; all its keys are idle at the start. -/
def run (settings : Settings) (options : BatchOptions) (program : List Node) : Run Unit :=
  block settings options (jump settings options program (assignedKeysAll program)) program

end Batch

end TileScript
