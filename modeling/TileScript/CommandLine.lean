import TileScript.CommandLine.Arguments
import TileScript.CommandLine.Files
import TileScript.Run.Report
import TileScript.Text.File

/-!
# The command

Runs the program in a file and shows its report; on demand the final board is saved. The work on
files goes through `FileAccess`, so that the command is the same on the files of the system and on
files in memory. The option for a table of the objects is read like the others, but the table and
its file are left out.

## Main definitions

* `CommandResult`: what the command shows, its exit code, and a complaint about its arguments.
* `execute`: the command.
-/

namespace TileScript.CommandLine

/-- What the command leaves behind. -/
structure CommandResult where
  exitCode : Nat
  shown : String
  complaint : String
  /-- Whether the program never ends. -/
  endless : Bool

/-- The result with an exit code. -/
def CommandResult.ofShown (exitCode : Nat) (shown : String) : CommandResult :=
  ⟨exitCode, shown, "", false⟩

/-- The result of a failure after something was shown. -/
def CommandResult.failed (shown message : String) : CommandResult :=
  .ofShown 1 (shown ++ "Error: " ++ message ++ "\n")

/-- The message on a file fault. A file that is missing is reported as the program's file, whichever
it was. -/
def fileMessage (file path : String) : FileFault → String
  | .missing => "File '" ++ file ++ "' not found"
  | fault => fault.message path

/-- The help on the command. -/
def helpText : String :=
  "usage: tbt [-h] [--debug] [--steps STEPS] [--keys KEYS] [--forever-limit FOREVER_LIMIT] " ++
    "[--csv CSV] [--objects-csv OBJECTS_CSV] filename\n"

variable {m : Type → Type} [Monad m]

/-- Saves a board if a path for it is given, and says where. -/
def saveBoard (files : FileAccess m) (file csv shown : String) (board : Board) :
    m CommandResult := do
  if csv = "" then return .ofShown 0 shown
  match ← files.write csv board.csv with
  | .error fault => return .failed shown (fileMessage file csv fault)
  | .ok () =>
    let directory ← files.directory
    return .ofShown 0 (shown ++ "\nBoard saved to: " ++ absolutePath directory csv ++ "\n")

/-- How the arguments say to run the program. -/
def runOptions (arguments : Arguments) (schedule : Schedule) (draw : Nat → Scalar) :
    RunOptions where
  debug := arguments.debug
  ticks := arguments.steps
  keysAt := schedule.keysAt
  foreverLimit := arguments.foreverLimit
  listener := .absent
  draw := draw

/-- Runs the program in a file. -/
def runFile (files : FileAccess m) (draw : Nat → Scalar) (file : String)
    (arguments : Arguments) : m CommandResult := do
  match ← files.read file with
  | .error fault => return .failed "" (fileMessage file file fault)
  | .ok bytes =>
    match Text.ofBytes bytes with
    | .error fault => return .failed "" fault.message
    | .ok source =>
      match Schedule.parse arguments.keys with
      | .error fault => return .failed "" fault.message
      | .ok schedule =>
        let report := reportOn (runOptions arguments schedule draw) source
        match report.ending with
        | .unparsed _ => return .ofShown 1 report.shown
        | .failed fault => return .failed report.shown fault.message
        | .endless => return { CommandResult.ofShown 0 report.shown with endless := true }
        | .finished result =>
          saveBoard files file arguments.csv report.shown result.state.world.board

/-- The command with its words. A complaint about them shows the usage first. -/
def execute (files : FileAccess m) (draw : Nat → Scalar) (words : List String) :
    m CommandResult :=
  match Arguments.parse words with
  | .error fault => return ⟨2, "", helpText ++ "tbt: error: " ++ fault.message ++ "\n", false⟩
  | .ok .help => return .ofShown 0 helpText
  | .ok (.run file arguments) => runFile files draw file arguments

end TileScript.CommandLine
