import TileScript.Board.Drawing
import TileScript.Program.Parser
import TileScript.Run.Batch
import TileScript.Run.Stepwise
import TileScript.Schedule
import TileScript.Token.Lexer

/-!
# Reports on program texts

Everything that is done with a program text, in the order in which a reader sees it: the text
itself, its tokens if tracing is on, and after the run the output and the board. A text that is no
program ends the report with its fault.

## Main definitions

* `RunOptions`: how to run a program text.
* `Report`, `Ending`: what was shown and how it ended.
* `reportOn`: runs a program text.
-/

namespace TileScript

/-- How to run a program text: with a number of ticks tick by tick, and from start to end if it is
not specified. -/
structure RunOptions where
  debug : Bool
  ticks : Amount
  keysAt : Int → Table String Scalar
  foreverLimit : Amount
  listener : Listener
  draw : Nat → Scalar

/-- The outcome of a run. Whether all is done and the number of ticks belong to runs tick by
tick. -/
structure RunResult where
  done? : Option Bool
  ticks? : Option Nat
  state : RunState

/-- How the work on a program text ended. -/
inductive Ending where
  /-- The text is no program. -/
  | unparsed (fault : Fault)
  /-- The work stopped by a fault. -/
  | failed (fault : Fault)
  /-- A loop of the program has no end. -/
  | endless
  | finished (result : RunResult)

/-- What was shown, and how it ended. -/
structure Report where
  shown : String
  ending : Ending

/-- A list of texts as traces show it. -/
def shownTexts (texts : List String) : String :=
  "[" ++ ", ".intercalate (texts.map Text.quoted) ++ "]"

/-- Runs a program from start to end on the empty world. -/
def runThrough (options : RunOptions) (program : List Node) : Except Stop RunResult :=
  let settings := Settings.batch options.debug options.listener options.draw
  let limits : BatchOptions := { foreverLimit := options.foreverLimit }
  match (Batch.run settings limits program).run (.start .empty) with
  | (.ok (), state) => .ok ⟨none, none, state⟩
  | (.error stop, _) => .error stop

/-- Runs a program tick by tick on the empty world. -/
def runTicks (options : RunOptions) (program : List Node) (ticks : Int) : RunResult :=
  let settings := Settings.stepwise options.debug options.listener options.draw
  let (session, done, count) :=
    (Session.create settings program).drive options.keysAt ticks.toNat
  ⟨some done, some count, session.state⟩

/-- The end of a report: the output of a run and the board. -/
def conclude (shown : String) (result : RunResult) : Report :=
  let shown := shown ++ "\nOutput:\n" ++ result.state.output ++ "\nBoard:\n"
  match result.state.world.board.drawing with
  | .ok drawing => ⟨shown ++ drawing ++ "\n", .finished result⟩
  | .error fault => ⟨shown, .failed fault⟩

/-- Runs a program from start to end and adds what it shows. -/
def reportThrough (options : RunOptions) (shown : String) (program : List Node) : Report :=
  let shown := shown ++ "\nInterpreting...\n"
  match runThrough options program with
  | .ok result => conclude shown result
  | .error (.fault fault) => ⟨shown, .failed fault⟩
  | .error .endless => ⟨shown, .endless⟩

/-- Runs a program tick by tick and adds what it shows. -/
def reportTicks (options : RunOptions) (shown : String) (program : List Node) : Report :=
  match options.ticks.display? with
  | none => ⟨shown, .failed .digitsToWrite⟩
  | some ticks =>
    let shown := shown ++ "\nStepping (up to " ++ ticks ++ " ticks)...\n"
    match options.ticks.toCount with
    | .error fault => ⟨shown, .failed fault⟩
    | .ok count => conclude shown (runTicks options program count)

/-- Runs a program and adds what it shows. -/
def runProgram (options : RunOptions) (shown : String) (program : List Node) : Report :=
  if options.ticks = .unspecified then reportThrough options shown program
  else reportTicks options shown program

/-- Parses tokens and runs the program. -/
def runTokens (options : RunOptions) (shown : String) (tokens : List Token) : Report :=
  let shown := shown ++ "\nParsing...\n"
  match parse tokens with
  | .error fault => ⟨shown ++ "Error: " ++ fault.message ++ "\n", .unparsed fault⟩
  | .ok program => runProgram options shown program

/-- Runs a program text. -/
def reportOn (options : RunOptions) (source : String) : Report :=
  let shown := "Input code:\n" ++ source ++ "\n\nTokenizing...\n"
  match tokenize source with
  | .error fault => ⟨shown, .failed fault⟩
  | .ok tokens =>
    if options.debug then
      match tokens.mapM Token.display with
      | .error fault => ⟨shown, .failed fault⟩
      | .ok texts => runTokens options (shown ++ "Tokens: " ++ shownTexts texts ++ "\n") tokens
    else runTokens options shown tokens

end TileScript
