import TileScript.Proofs.Run.Edges
import TileScript.Proofs.Run.Mirrors

/-!
# Tracing and listening leave runs alone

A run may be traced, and somebody may listen to it. Neither changes what the run does. Take the
lines of traces and of failed notices out of the log and forget the events: what is left is the same
run, untraced and with nobody listening. A line of a trace is put together whether or not it is
written, so that a value that cannot be written is a fault in both runs and at the same place.

States, settings and sessions without traces and listeners are called bare. Every operation of a run
commutes with making its state bare; `Run.Strips` says so of actions. A bare state is a view of the
state, so what holds of all views holds of bare states: the statements, and runs from start to end.

## Main definitions

* `LineRole.isOwn`: the lines that a run writes in any case.
* `RunState.bare`, `Settings.bare`, `Session.bare`: without traces and listeners.
* `Run.Strips`: an action and what it is on bare states.

## Main statements

* `Run.isView_bare`: bare states are views.
* `Batch.strips_run`: runs from start to end.
* `Session.call_bare`: the calls of a host that drives a run tick by tick.
* `runs_transparent`: tracing and listening change nothing but the log and the events.
-/

namespace TileScript

/-! ## Bare states -/

/-- Whether a line is written in any case: it reports what a statement did, or a fault. -/
def LineRole.isOwn : LineRole → Bool
  | .report | .fault => true
  | .trace | .listener => false

/-- The lines of a log that are neither traces nor failures of a listener. -/
def ownLines (log : Array LogLine) : Array LogLine := log.filter (·.role.isOwn)

@[simp] theorem ownLines_append (log lines : Array LogLine) :
    ownLines (log ++ lines) = ownLines log ++ ownLines lines := by
  simp [ownLines]

/-- The state of the same run, untraced and with nobody listening. -/
def RunState.bare (state : RunState) : RunState :=
  { state with log := ownLines state.log, events := #[] }

/-- The settings of the same run, untraced and with nobody listening. -/
def Settings.bare (settings : Settings) : Settings :=
  { settings with debug := false, listener := .absent }

namespace RunState

variable (state : RunState)

@[simp] theorem world_bare : state.bare.world = state.world := rfl

theorem bare_write_of_isOwn {role : LineRole} (h : role.isOwn = true) (text : String) :
    (state.write role text).bare = state.bare.write role text := by
  simp [bare, write, ownLines, h]

theorem bare_write_of_not_isOwn {role : LineRole} (h : role.isOwn = false) (text : String) :
    (state.write role text).bare = state.bare := by
  simp [bare, write, ownLines, h]

end RunState

namespace Run

variable {α β : Type}

/-! ## Actions on bare states -/

/-- On the bare state the second action does what the first does on the state itself: it has the
same result, and it ends in what is bare of the other's state. -/
structure Strips (action bare : Run α) : Prop where
  run_eq : ∀ state, bare.run state.bare = ((action.run state).1, (action.run state).2.bare)

namespace Strips

theorem of_mirrors {action bare : Run α} (h : Mirrors RunState.bare action bare) :
    Strips action bare :=
  ⟨h.run_eq⟩

theorem mirrors {action bare : Run α} (h : Strips action bare) :
    Mirrors RunState.bare action bare :=
  ⟨h.run_eq⟩

theorem pure (a : α) : Strips (pure a) (pure a) := of_mirrors (.pure a)

theorem throw (stop : Stop) : Strips (throw stop : Run α) (throw stop) := of_mirrors (.throw stop)

theorem bind {action bare : Run α} {next bareNext : α → Run β} (h : Strips action bare)
    (hnext : ∀ a, Strips (next a) (bareNext a)) : Strips (action >>= next) (bare >>= bareNext) :=
  of_mirrors (.bind h.mirrors fun a => (hnext a).mirrors)

/-- What an action reads of its state is the same in the bare one. -/
theorem get_bind {next bareNext : RunState → Run α}
    (h : ∀ state, Strips (next state) (bareNext state.bare)) :
    Strips (get >>= next) (get >>= bareNext) :=
  of_mirrors (.get_bind fun state => (h state).mirrors)

theorem modify {change : RunState → RunState}
    (h : ∀ state, change state.bare = (change state).bare) :
    Strips (modify change : Run Unit) (modify change) := by
  constructor
  intro state
  rw [run_modify, run_modify, h state]

theorem set (after : RunState) : Strips (set after : Run Unit) (set after.bare) := ⟨fun _ => rfl⟩

theorem ite {condition : Prop} [Decidable condition] {yes bareYes no bareNo : Run α}
    (hyes : Strips yes bareYes) (hno : Strips no bareNo) :
    Strips (if condition then yes else no) (if condition then bareYes else bareNo) :=
  of_mirrors (.ite hyes.mirrors hno.mirrors)

theorem ofExcept (result : Except Fault α) :
    Strips (Run.ofExcept result) (Run.ofExcept result) :=
  of_mirrors (.ofExcept result)

theorem forM {list : List α} {action bare : α → Run Unit} (h : ∀ a, Strips (action a) (bare a)) :
    Strips (list.forM action) (list.forM bare) :=
  of_mirrors (.forM fun a => (h a).mirrors)

theorem mapM {list : List α} {action bare : α → Run β} (h : ∀ a, Strips (action a) (bare a)) :
    Strips (list.mapM action) (list.mapM bare) := by
  induction list with
  | nil => exact pure []
  | cons a list ih =>
    rw [List.mapM_cons, List.mapM_cons]
    exact bind (h a) fun _ => bind ih fun _ => pure _

/-! ## Writing -/

theorem write {role : LineRole} (h : role.isOwn = true) (text : String) :
    Strips (Run.write role text) (Run.write role text) :=
  modify fun state => (state.bare_write_of_isOwn h text).symm

/-- A line that is not the run's own leaves no mark. -/
theorem write_nothing {role : LineRole} (h : role.isOwn = false) (text : String) :
    Strips (Run.write role text) (Pure.pure ()) := by
  constructor
  intro state
  rw [run_write, run_pure, state.bare_write_of_not_isOwn h]

theorem emit (pieces : List Scalar) : Strips (Run.emit pieces) (Run.emit pieces) :=
  bind (ofExcept _) fun _ => write rfl _

variable (settings : Settings)

theorem logError (message : String) :
    Strips (Run.logError settings message) (Run.logError settings.bare message) := write rfl _

/-- A line of a trace is put together in both runs, and it is a fault in both or in none. -/
theorem trace (pieces : List Scalar) :
    Strips (Run.trace settings pieces) (Run.trace settings.bare pieces) := by
  apply bind (ofExcept _)
  intro line
  cases settings.debug with
  | true => exact write_nothing rfl _
  | false => exact pure ()

theorem notify (name : String) :
    Strips (Run.notify settings name) (Run.notify settings.bare name) := by
  have hbare : Run.notify settings.bare name = Pure.pure () := rfl
  rw [hbare, Run.notify]
  cases settings.listener with
  | absent => exact pure ()
  | recording => exact ⟨fun _ => rfl⟩
  | failing reason => exact write_nothing rfl _

/-! ## Evaluating and changing the world -/

theorem ownLines_evaluationLines (outcome : Except Fault Scalar × EvalState) :
    ownLines (evaluationLines settings outcome) = evaluationLines settings.bare outcome := by
  obtain ⟨result, after⟩ := outcome
  have htraces : ownLines (if settings.debug then
      after.trace.map fun line => ⟨.trace, settings.traceMark ++ " " ++ line⟩ else #[]) = #[] := by
    split
    · apply Array.filter_eq_empty_iff.mpr
      intro line hline
      obtain ⟨text, -, rfl⟩ := Array.mem_map.mp hline
      simp [LineRole.isOwn]
    · rfl
  simp only [evaluationLines, ownLines_append]
  rw [htraces]
  cases result <;> rfl

/-- The value of an expression depends on the variables and on the draws that are left. -/
theorem value (node : Node) : Strips (Run.value settings node) (Run.value settings.bare node) := by
  constructor
  intro state
  have hevaluation :
      evaluation settings.bare node state.bare = evaluation settings node state := rfl
  rw [run_value, run_value, valueOf, valueOf, evaluated, evaluated, hevaluation]
  simp [RunState.bare, ownLines_evaluationLines]

theorem setAssignment (key : String) (value : Scalar) :
    Strips (Run.setAssignment key value) (Run.setAssignment key value) := modify fun _ => rfl

end Strips

/-! ## Statements -/

/-- A bare state is a view of the state. -/
theorem isView_bare (settings : Settings) : IsView settings settings.bare RunState.bare where
  world_eq _ := rfl
  set_world _ _ := rfl
  write_eq state role text h := by
    refine state.bare_write_of_isOwn ?_ text
    rcases h with rfl | rfl <;> rfl
  mark_eq := rfl
  value node := (Strips.value settings node).mirrors
  notify name := (Strips.notify settings name).mirrors

variable (settings : Settings)

theorem Strips.attempt {action bare : Run Unit} (h : Strips action bare) :
    Strips (Run.attempt settings action) (Run.attempt settings.bare bare) :=
  of_mirrors ((isView_bare settings).attempt h.mirrors)

theorem strips_canvas (width height : Scalar) :
    Strips (canvas settings width height) (canvas settings.bare width height) :=
  .of_mirrors ((isView_bare settings).canvas width height)

theorem strips_define (name : String) (node : Node) :
    Strips (define settings name node) (define settings.bare name node) :=
  .of_mirrors ((isView_bare settings).define name node)

theorem strips_compute (node : Node) :
    Strips (compute settings node) (compute settings.bare node) :=
  .of_mirrors ((isView_bare settings).compute node)

theorem strips_spawn (id x y objectState : Node) :
    Strips (spawn settings id x y objectState) (spawn settings.bare id x y objectState) :=
  .of_mirrors ((isView_bare settings).spawn id x y objectState)

theorem strips_despawn (id : Node) : Strips (despawn settings id) (despawn settings.bare id) :=
  .of_mirrors ((isView_bare settings).despawn id)

theorem strips_move (id x y : Node) (direction : Scalar) (objectState : Node) (swap : Scalar) :
    Strips (move settings id x y direction objectState swap)
      (move settings.bare id x y direction objectState swap) :=
  .of_mirrors ((isView_bare settings).move id x y direction objectState swap)

theorem strips_wait (duration : Scalar) : Strips (wait duration) (wait duration) :=
  .bind (.ofExcept _) fun _ => .ite (.emit _) (.throw _)

theorem strips_spatialCondition (left relation : Scalar) (right : Node) :
    Strips (spatialCondition settings left relation right)
      (spatialCondition settings.bare left relation right) :=
  .of_mirrors ((isView_bare settings).spatialCondition left relation right)

end Run

/-! ## Runs from start to end -/

/-- A run from start to end does the same on bare states. -/
theorem Batch.strips_run (settings : Settings) (options : BatchOptions) (program : List Node) :
    Run.Strips (run settings options program) (run settings.bare options program) :=
  .of_mirrors ((Run.isView_bare settings).mirrors_run options program)

/-! ## Runs tick by tick -/

namespace Stepwise

open Run

variable (settings : Settings) (program : List Node)

theorem strips_boundIds (key : String) :
    Strips (boundIds settings program key) (boundIds settings.bare program key) :=
  .mapM (.value settings)

theorem strips_heldFor (key id : Scalar) :
    Strips (heldFor settings program key id) (heldFor settings.bare program key id) := by
  unfold heldFor
  split
  · apply Strips.get_bind
    intro state
    rw [state.world_bare]
    exact .ite (.bind (strips_boundIds settings program _) fun _ => .pure _) (.pure _)
  · exact .pure _

theorem strips_condition (left : Node) (relation : Scalar) (right : Node) (key : Scalar) :
    Strips (condition settings program left relation right key)
      (condition settings.bare program left relation right key) := by
  apply Strips.bind (.value settings left)
  intro left
  apply Strips.ite
  · exact .bind (strips_heldFor settings program _ _) fun _ => .pure _
  · exact .bind (strips_spatialCondition settings _ _ _) fun _ => .pure _

theorem strips_branch (left : Node) (relation : Scalar) (right : Node) (key : Scalar)
    {whenTrue bareTrue whenFalse bareFalse : Run Unit} (htrue : Strips whenTrue bareTrue)
    (hfalse : Strips whenFalse bareFalse) :
    Strips (branch settings program left relation right key whenTrue whenFalse)
      (branch settings.bare program left relation right key bareTrue bareFalse) :=
  .bind (strips_condition settings program left relation right key) fun _ =>
    .bind (.trace settings _) fun _ => .ite htrue hfalse

mutual

theorem strips_statement (node : Node) :
    Strips (statement settings program node) (statement settings.bare program node) := by
  cases node with
  | branch left relation right key whenTrue whenFalse =>
    rw [statement, statement]
    exact .attempt settings (strips_branch settings program left relation right key
      (strips_block whenTrue) (strips_block whenFalse))
  | define name node => exact .attempt settings (strips_define settings name node)
  | compute node => exact .attempt settings (strips_compute settings node)
  | spawn id x y state => exact .attempt settings (strips_spawn settings id x y state)
  | despawn id => exact .attempt settings (strips_despawn settings id)
  | move id x y direction state swap =>
    exact .attempt settings (strips_move settings id x y direction state swap)
  | wait duration => exact .attempt settings (strips_wait duration)
  | _ => exact .logError settings _

theorem strips_block (nodes : List Node) :
    Strips (block settings program nodes) (block settings.bare program nodes) := by
  cases nodes with
  | nil =>
    rw [block, block]
    exact .pure ()
  | cons node rest =>
    rw [block, block]
    exact .bind (strips_statement node) fun _ => strips_block rest

end

theorem strips_setupStatement (node : Node) :
    Strips (setupStatement settings node) (setupStatement settings.bare node) := by
  cases node with
  | canvas width height => exact .attempt settings (strips_canvas settings width height)
  | spawn id x y state => exact .attempt settings (strips_spawn settings id x y state)
  | define name node => exact .attempt settings (strips_define settings name node)
  | assign key node =>
    exact .attempt settings (.bind (.value settings node) fun _ =>
      .bind (.setAssignment _ _) fun _ => .trace settings _)
  | _ => exact .trace settings _

theorem strips_interrupt (key : String) :
    Strips (interrupt settings program key) (interrupt settings.bare program key) := by
  refine .bind (.trace settings _) fun _ => .bind (strips_boundIds settings program key) ?_
  intro ids
  refine .forM fun bound => .forM fun watcher => .bind (.value settings _) fun id => ?_
  exact .ite (.bind (.trace settings _) fun _ => strips_block settings program _) (.pure _)

theorem strips_interrupts (previous : Table String Scalar) :
    Strips (interrupts settings program previous) (interrupts settings.bare program previous) := by
  apply Strips.get_bind
  intro state
  rw [state.world_bare]
  exact .forM fun entry => .ite (strips_interrupt settings program _) (.pure _)

theorem strips_receive (inputs : Table String Scalar) :
    Strips (receive settings inputs) (receive settings.bare inputs) := by
  refine .bind (.forM fun entry => .get_bind fun state => ?_) fun _ => .modify fun _ => rfl
  rw [state.world_bare]
  exact .ite (.pure _) (.trace settings _)

end Stepwise

namespace Process

open Run

variable (settings : Settings) (program : List Node)

theorem strips_advance (process : Process) :
    Strips (process.advance settings program) (process.advance settings.bare program) := by
  apply Strips.bind (.ofExcept _)
  intro finished
  apply Strips.ite (.pure _)
  refine .bind (.trace settings _) fun _ => ?_
  exact .bind (Stepwise.strips_block settings program _) fun _ => .pure _

/-- The rounds of a tick are the same on bare states. -/
theorem advanceAll_bare (processes : List Process) (state : RunState) :
    (advanceAll settings.bare program processes).run state.bare =
      (((advanceAll settings program processes).run state).1,
        ((advanceAll settings program processes).run state).2.bare) := by
  induction processes generalizing state with
  | nil => rfl
  | cons process rest ih =>
    rw [run_advanceAll_cons, run_advanceAll_cons, (strips_advance settings program process).run_eq]
    cases (process.advance settings program).run state with
    | mk result after =>
      cases result with
      | error stop => rfl
      | ok moved =>
        dsimp only
        rw [ih after]

end Process

namespace Session

open Run

/-- The session of the same run, untraced and with nobody listening. -/
def bare (session : Session) : Session :=
  { session with settings := session.settings.bare, state := session.state.bare }

variable (session : Session)

theorem act_bare {action bareAction : Run Unit} (h : Strips action bareAction) :
    session.bare.act bareAction = ((session.act action).1.bare, (session.act action).2) := by
  have hrun : bareAction.run session.bare.state = _ := h.run_eq session.state
  rw [act, hrun]
  rfl

theorem create_bare (settings : Settings) (program : List Node) :
    create settings.bare program = (create settings program).bare := by
  have hact := act_bare ⟨settings, program, .start .empty, [], false, .empty⟩
    (.trace settings ["StepInterpreter created with ", .int program.length, " AST nodes"])
  have hstart : bare ⟨settings, program, .start .empty, [], false, .empty⟩ =
      ⟨settings.bare, program, .start .empty, [], false, .empty⟩ := rfl
  rw [hstart] at hact
  rw [create, create, hact]

theorem setUp_bare : session.bare.setUp = session.setUp.bare := by
  have hactions : Strips (setupActions session.settings session.program)
      (setupActions session.settings.bare session.program) := by
    refine .bind (.trace _ _) fun _ => .bind (.forM ?_) fun _ => .trace _ _
    exact Stepwise.strips_setupStatement session.settings
  have hrun : (setupActions session.bare.settings session.bare.program).run session.bare.state =
    _ := hactions.run_eq session.state
  cases h : session.isSetUp with
  | true => rw [setUp_of_isSetUp h, setUp_of_isSetUp (show session.bare.isSetUp = true from h)]
  | false =>
    rw [setUp_eq h, setUp_eq (show session.bare.isSetUp = false from h), hrun]
    rfl

theorem strips_openTick (inputs : Table String Scalar) :
    Strips (session.openTick inputs) (session.bare.openTick inputs) :=
  .bind (Stepwise.strips_receive _ inputs) fun _ => Stepwise.strips_interrupts _ _ _

theorem fail_bare (stop : Stop) :
    session.bare.fail stop = ((session.fail stop).1.bare, (session.fail stop).2) := by
  cases stop with
  | endless => rfl
  | fault fault =>
    have hact := session.act_bare (.logError session.settings
      ("Error in step: " ++ fault.kind.name ++ ": " ++ fault.message))
    exact congrArg (fun outcome => (outcome.1, true)) hact

theorem closeTick_bare (state : RunState) :
    session.bare.closeTick state.bare =
      ((session.closeTick state).1.bare, (session.closeTick state).2) := by
  have hall : (Process.advanceAll session.bare.settings session.bare.program
    session.bare.processes).run state.bare = _ :=
    Process.advanceAll_bare session.settings session.program session.processes state
  rw [closeTick, closeTick, hall]
  generalize (Process.advanceAll session.settings session.program session.processes).run state
    = outcome
  obtain ⟨⟨processes, active⟩, after⟩ := outcome
  cases active with
  | ok active => rfl
  | error stop =>
    exact fail_bare { session with
      previous := state.world.assignments, processes, state := after } stop

/-- A tick does the same in bare sessions, and it says the same of being done. -/
theorem step_bare (inputs : Table String Scalar) :
    session.bare.step inputs = ((session.step inputs).1.bare, (session.step inputs).2) := by
  have hopen : (session.setUp.bare.openTick inputs).run session.setUp.bare.state = _ :=
    (session.setUp.strips_openTick inputs).run_eq session.setUp.state
  rw [step_eq, step_eq, setUp_bare, hopen]
  cases (session.setUp.openTick inputs).run session.setUp.state with
  | mk result after =>
    cases result with
    | error stop => exact fail_bare { session.setUp with state := after } stop
    | ok _ => exact session.setUp.closeTick_bare after

theorem strips_keyMove (settings : Settings) (key : String) :
    Strips (keyMove settings key) (keyMove settings.bare key) := by
  apply Strips.get_bind
  intro state
  rw [state.world_bare]
  split
  · refine .ite (.bind (.set _) fun _ => ?_) (.pure _)
    split
    · exact .bind (.emit _) fun _ => .notify settings _
    · exact .ite (.logError settings _) (.throw _)
  · exact .pure _

theorem pressKey_bare (key : String) :
    session.bare.pressKey key = ((session.pressKey key).1.bare, (session.pressKey key).2) :=
  session.act_bare (strips_keyMove session.settings key)

/-- The calls of a host do the same in bare sessions. -/
theorem call_bare (call : Call) : session.bare.call call = (session.call call).bare := by
  cases call with
  | setUp => exact session.setUp_bare
  | step inputs => exact congrArg Prod.fst (session.step_bare inputs)
  | pressKey key => exact congrArg Prod.fst (session.pressKey_bare key)

theorem foldl_call_bare (calls : List Call) :
    calls.foldl call session.bare = (calls.foldl call session).bare := by
  induction calls generalizing session with
  | nil => rfl
  | cons call calls ih => rw [List.foldl_cons, List.foldl_cons, call_bare, ih]

end Session

/-! ## Whole runs -/

/-- **Tracing and listening leave runs alone.** Take two runs of the same statements, with the same
random draws, that differ in whether they are traced and in who listens. From start to end, on any
world and with any limits on loops, they have the same result, the same world and the same number of
draws. Tick by tick, after any calls of the host, they have the same world, the same number of
draws, the same rounds of every process and the same values to compare with; the next tick says the
same of being done, and a key that moves an object has the same result. In both cases the log of the
run that is not traced and has no listener is that of the other without the lines of traces and of
failed notices. -/
theorem runs_transparent (draw : ℕ → Scalar) (program : List Node) (debug debug' : Bool)
    (listener listener' : Listener) :
    (∀ (options : BatchOptions) (world : World),
      let run debug listener :=
        (Batch.run (.batch debug listener draw) options program).run (.start world)
      (run debug listener).1 = (run debug' listener').1 ∧
      (run debug listener).2.world = (run debug' listener').2.world ∧
      (run debug listener).2.drawn = (run debug' listener').2.drawn ∧
      (run false .absent).2.log = ownLines (run debug listener).2.log) ∧
    ∀ calls : List Session.Call,
      let session debug listener :=
        calls.foldl Session.call (.create (.stepwise debug listener draw) program)
      (session debug listener).state.world = (session debug' listener').state.world ∧
      (session debug listener).state.drawn = (session debug' listener').state.drawn ∧
      (session debug listener).processes = (session debug' listener').processes ∧
      (session debug listener).previous = (session debug' listener').previous ∧
      (∀ inputs, ((session debug listener).step inputs).2 =
        ((session debug' listener').step inputs).2) ∧
      (∀ key, ((session debug listener).pressKey key).2 =
        ((session debug' listener').pressKey key).2) ∧
      (session false .absent).state.log = ownLines (session debug listener).state.log := by
  constructor
  · intro options world run
    have hbare : ∀ debug listener,
        run false .absent = ((run debug listener).1, (run debug listener).2.bare) := by
      intro debug listener
      exact (Batch.strips_run (.batch debug listener draw) options program).run_eq (.start world)
    have hrun := (hbare debug listener).symm.trans (hbare debug' listener')
    refine ⟨congrArg (·.1) hrun, congrArg (·.2.world) hrun, congrArg (·.2.drawn) hrun, ?_⟩
    rw [hbare debug listener]
    rfl
  · intro calls session
    have hbare : ∀ debug listener, session false .absent = (session debug listener).bare := by
      intro debug listener
      rw [← Session.foldl_call_bare, ← Session.create_bare]
      rfl
    have hsession := (hbare debug listener).symm.trans (hbare debug' listener')
    refine ⟨congrArg (·.state.world) hsession, congrArg (·.state.drawn) hsession,
      congrArg (·.processes) hsession, congrArg (·.previous) hsession, ?_, ?_, ?_⟩
    · intro inputs
      have hstep := congrArg (fun session => (Session.step session inputs).2) hsession
      simpa only [Session.step_bare] using hstep
    · intro key
      have hpress := congrArg (fun session => (Session.pressKey session key).2) hsession
      simpa only [Session.pressKey_bare] using hpress
    · rw [hbare debug listener]
      rfl

end TileScript
