import TileScript.Proofs.Program.RoundTrip
import TileScript.Proofs.Run.Alike
import TileScript.Proofs.Run.Edges
import TileScript.Proofs.Run.Keeps
import TileScript.Run.Draws

/-!
# One loop, from start to end and tick by tick

A program that prepares its board and then has one loop can be run in both ways: from start to end,
where the loop runs all its rounds at once, or tick by tick, where the loop is a process that runs a
round in each tick. The two keep abreast: after as many ticks as rounds the states are twins. A loop
whose count is no number of floating point is where they part.

## Main definitions

* `Session.Abreast`: a session that is as far as a run from start to end.

## Main statements

* `Session.Abreast.iterate`: rounds on the one side are ticks on the other.
* `single_loop_agrees`: the worlds at the end are the same.
* `single_loop_parts`: not so for a count that is too large.
-/

namespace TileScript

open Run

/-! ## Processes -/

namespace Process

variable {settings : Settings} {program : List Node} {process : Process}

theorem advance_of_finished (h : process.isFinished = .ok true) :
    process.advance settings program = pure none := by
  simp only [advance, h, Run.ofExcept, pure_bind, if_true]

/-- A round of a process. -/
def work (settings : Settings) (program : List Node) (process : Process) : Run Unit := do
  trace settings ["Processing repeat iteration ", .int (process.rounds + 1), "/",
    process.limit?.getD "∞"]
  Stepwise.block settings program process.body

theorem advance_of_unfinished (h : process.isFinished = .ok false) :
    process.advance settings program = (do
      process.work settings program
      return some { process with rounds := process.rounds + 1 }) := by
  simp only [advance, work, h, Run.ofExcept, pure_bind, Bool.false_eq_true, if_false, bind_assoc]

/-- A round does not stop if its number and the limit can be written. -/
theorem completes_work (hnumber : (Scalar.int (process.rounds + 1)).Written)
    (hlimit : (process.limit?.getD "∞").Written) :
    Completes (fun _ => True) (process.work settings program) :=
  .bind (World.stable_true.robust.completes_trace settings (by simp [hnumber, hlimit])) fun _ =>
    Stepwise.completes_block (World.stable_true.invariant settings) hereditary_true process.body
      fun _ _ => trivial

/-- A round of a run from start to end does the same. -/
theorem alike_round (process : Process) {settings' : Settings}
    (hdraw : settings'.draw = settings.draw) (options : BatchOptions)
    (jump : String → Scalar → Run Unit)
    (hbody : ∀ node ∈ process.body, node.isStatement = true)
    (hshared : Node.areShared process.body = true) (label : String) {delay : Scalar}
    (hdelay : delay.Written) (hnumber : (Scalar.int (process.rounds + 1)).Written)
    (hlimit : (process.limit?.getD "∞").Written) :
    Alike (Batch.round label delay (Batch.block settings' options jump process.body) process.rounds)
      (process.work settings program) := by
  have hwork : process.work settings program =
      process.work settings program >>= fun _ => pure () := bind_pure_unit.symm
  rw [hwork, Batch.round, work, bind_assoc]
  refine .bind (.of_silent (silent_emit (by simp [hnumber, hdelay]))
    (silent_trace settings (by simp [hnumber, hlimit]))) fun _ => ?_
  refine .bind (alike_block options jump program hdraw _ hbody hshared) fun _ => ?_
  exact .of_silent (silent_emit (by simp [hdelay])) silent_pure

/-- A process that cannot go on: its tick leaves it and the state alone. -/
structure Rests (settings : Settings) (program : List Node) (process : Process) : Prop where
  run_eq : ∀ state, (process.advance settings program).run state = (.ok none, state) ∨
    ∃ stop, (process.advance settings program).run state = (.error stop, state)

theorem rests_of_finished (h : process.isFinished = .ok true) : Rests settings program process :=
  ⟨fun state => .inl (by rw [advance_of_finished h]; rfl)⟩

/-- A round whose number is too long to be written does not begin. -/
theorem rests_of_not_written (h : process.isFinished = .ok false)
    (hrounds : ¬(Scalar.int (process.rounds + 1)).Written) : Rests settings program process := by
  refine ⟨fun state => .inr ⟨.fault .digitsToWrite, ?_⟩⟩
  rw [advance_of_unfinished h, work, trace, Scalar.line_eq_error (by simp) hrounds]
  rfl

end Process

/-! ## Keeping abreast -/

namespace Session

/-- The session after a tick without input. -/
def idleTick (session : Session) : Session := (session.step .empty).1

/-- The session has one process, which has run the given number of rounds, and its state is a twin
of the given one. -/
structure Abreast (settings : Settings) (program : List Node) (count : Scalar) (body : List Node)
    (rounds : ℕ) (state : RunState) (session : Session) : Prop where
  settings_eq : session.settings = settings
  program_eq : session.program = program
  isSetUp : session.isSetUp = true
  processes_eq : session.processes = [⟨count, body, rounds⟩]
  twin : Twin state session.state

namespace Abreast

variable {settings : Settings} {program : List Node} {count : Scalar} {body : List Node}
  {rounds : ℕ} {state : RunState} {session : Session}

/-- Without bound keys and without input, a tick has nothing to do before its process. -/
theorem run_openTick (H : session.Abreast settings program count body rounds state) :
    (session.openTick .empty).run session.state = (.ok (), session.state) := by
  have hunbound : session.state.world.assignments.entries = [] := by
    rw [← H.twin.world_eq, H.twin.unbound]
    rfl
  rw [openTick, run_bind]
  change (Stepwise.interrupts session.settings session.program session.previous).run
    session.state = _
  rw [Stepwise.interrupts, run_get_bind, hunbound]
  rfl

/-- A tick in which the process runs a round. -/
theorem tick (H : session.Abreast settings program count body rounds state)
    {state' after : RunState} (htwin : Twin state' after)
    (hadvance : (Process.advance settings program ⟨count, body, rounds⟩).run session.state =
      (.ok (some ⟨count, body, rounds + 1⟩), after)) :
    session.idleTick.Abreast settings program count body (rounds + 1) state' := by
  rw [idleTick, step_eq_closeTick H.isSetUp H.run_openTick, closeTick, H.settings_eq, H.program_eq,
    H.processes_eq, Process.run_advanceAll_cons, hadvance]
  exact ⟨rfl, rfl, H.isSetUp, rfl, htwin⟩

/-- A tick in which the process rests. -/
theorem rest (H : session.Abreast settings program count body rounds state)
    (hrests : Process.Rests settings program ⟨count, body, rounds⟩) :
    session.idleTick.Abreast settings program count body rounds state := by
  rw [idleTick, step_eq_closeTick H.isSetUp H.run_openTick, closeTick, H.settings_eq, H.program_eq,
    H.processes_eq, Process.run_advanceAll_cons]
  rcases hrests.run_eq session.state with hadvance | ⟨stop, hadvance⟩
  · rw [hadvance]
    exact ⟨rfl, rfl, H.isSetUp, rfl, H.twin⟩
  · rw [hadvance]
    cases stop with
    | endless => exact ⟨rfl, rfl, H.isSetUp, rfl, H.twin⟩
    | fault fault =>
      have htwin : ∀ message, Twin state ((logError settings message).run session.state).2 :=
        fun message => ((silent_logError settings message).twin_right H.twin).2
      exact ⟨rfl, rfl, H.isSetUp, rfl, htwin _⟩

theorem rests (H : session.Abreast settings program count body rounds state)
    (hrests : Process.Rests settings program ⟨count, body, rounds⟩) (ticks : ℕ) :
    (idleTick^[ticks] session).Abreast settings program count body rounds state := by
  induction ticks generalizing session with
  | zero => exact H
  | succ ticks ih => exact ih (H.rest hrests)

variable {settings' : Settings} (hdraw : settings'.draw = settings.draw) (options : BatchOptions)
  (jump : String → Scalar → Run Unit) (hbody : ∀ node ∈ body, node.isStatement = true)
  (hshared : Node.areShared body = true) (label : String) {delay : Scalar}
  (hdelay : delay.Written) (hlimit : ((Process.limit? ⟨count, body, 0⟩).getD "∞").Written)
include hdraw hbody hshared hdelay hlimit

/-- A round of a run from start to end is a tick. -/
theorem round (H : session.Abreast settings program count body rounds state)
    (hrunning : Process.isFinished ⟨count, body, rounds⟩ = .ok false)
    (hnumber : (Scalar.int (rounds + 1)).Written) :
    ∃ after, (Batch.round label delay (Batch.block settings' options jump body) rounds).run state =
        (.ok (), after) ∧
      session.idleTick.Abreast settings program count body (rounds + 1) after := by
  let process : Process := ⟨count, body, rounds⟩
  have hwork : Completes (fun _ => True) (process.work settings program) :=
    Process.completes_work hnumber hlimit
  have halike : Alike (Batch.round label delay (Batch.block settings' options jump body) rounds)
      (process.work settings program) :=
    process.alike_round hdraw options jump hbody hshared label hdelay hnumber hlimit
  obtain ⟨after, after', hrun, hrun', htwin⟩ := halike.exists_run hwork H.twin
  refine ⟨after, hrun, H.tick htwin ?_⟩
  rw [Process.advance_of_unfinished hrunning, run_bind, hrun']
  rfl

/-- Rounds of a run from start to end are ticks. If the number of a round is too long to be written,
neither goes on. -/
theorem iterate (H : session.Abreast settings program count body rounds state) (left : ℕ)
    (hrunning : ∀ index < rounds + left, Process.isFinished ⟨count, body, index⟩ = .ok false) :
    ∃ result after rounds',
      (Run.iterate (Batch.round label delay (Batch.block settings' options jump body)) rounds
        left).run state = (result, after) ∧
      (idleTick^[left] session).Abreast settings program count body rounds' after ∧
      result ≠ .error .endless ∧
      (rounds + left < Scalar.writtenBound → result = .ok () ∧ rounds' = rounds + left) := by
  induction left generalizing rounds state session with
  | zero => exact ⟨.ok (), state, rounds, rfl, H, nofun, fun _ => ⟨rfl, rfl⟩⟩
  | succ left ih =>
    by_cases hnumber : (Scalar.int (rounds + 1)).Written
    · obtain ⟨after, hround, H'⟩ := H.round hdraw options jump hbody hshared label hdelay hlimit
        (hrunning rounds (by omega)) hnumber
      obtain ⟨result, after', rounds', hiterate, Hlast, hend, hbound⟩ :=
        ih H' fun index hindex => hrunning index (by omega)
      refine ⟨result, after', rounds', ?_, Hlast, hend, fun h => ?_⟩
      · rw [Run.iterate, run_bind, hround]
        exact hiterate
      · have hlast := hbound (by omega)
        exact ⟨hlast.1, by omega⟩
    · refine ⟨.error (.fault .digitsToWrite), state, rounds, ?_, ?_, nofun, fun h => ?_⟩
      · rw [Run.iterate, Batch.round, emit, Scalar.line_eq_error (by simp) hnumber]
        rfl
      · exact H.rests (Process.rests_of_not_written (hrunning rounds (by omega)) hnumber) _
      · rw [Scalar.written_int_iff] at hnumber
        omega

end Abreast

end Session

/-! ## Loops -/

theorem Scalar.same_int_text (n : ℤ) (text : String) : (Scalar.int n).same (.text text) = false :=
  rfl

theorem Process.isFinished_int (body : List Node) (rounds total : ℕ) :
    Process.isFinished ⟨.int total, body, rounds⟩ = .ok (decide (total ≤ rounds)) := by
  have hle : (Number.int total).le (.int rounds) = decide (total ≤ rounds) := by
    rw [Bool.eq_iff_iff]
    simp [Number.le, Number.lt, Number.same, le_iff_lt_or_eq]
  rw [isFinished, limit?]
  simp [Scalar.same_int_text, Scalar.number?, hle]

theorem Process.isFinished_forever (body : List Node) (rounds : ℕ) :
    Process.isFinished ⟨"forever", body, rounds⟩ = .ok false := by
  rw [isFinished, limit?]
  simp [Scalar.same]

/-- A count that has a nearest value of floating point is the number of rounds. -/
theorem Batch.times_int (options : BatchOptions) {total e f : ℕ} (he : e = 970)
    (hf : f = e + 54) (h : total < 2 ^ f - 2 ^ e) :
    Batch.times options (.int total) = .ok total := by
  have hnumber : (Scalar.int total).isNumber = .ok true :=
    Scalar.isNumber_int_iff.mpr (Binary64.ofInt?_of_natAbs_lt he hf (by simpa using h))
  have hless : (Scalar.int total).less (.int 0) = .ok false := by
    simp [Scalar.less, Scalar.number?, Number.lt]
  rw [Batch.times]
  dsimp only
  rw [if_neg (by simp), hnumber]
  dsimp only [bind, Except.bind]
  rw [if_pos rfl, hless]
  rfl

namespace Batch

/-- A loop with such a count. -/
theorem loop_int (options : BatchOptions) (delay : Scalar) (action : Run Unit) {total e f : ℕ}
    (he : e = 970) (hf : f = e + 54) (h : total < 2 ^ f - 2 ^ e) :
    loop options delay (.int total) action =
      Run.iterate (round (toString total) delay action) 0 total := by
  rw [loop, if_neg (by simp [Scalar.same_int_text]), times_int options he hf h]
  exact pure_bind _ _

/-- A loop without end under a limit. -/
theorem loop_forever {options : BatchOptions} (delay : Scalar) (action : Run Unit) {total : ℕ}
    (h : options.foreverLimit = .ofInt total) :
    loop options delay "forever" action = (do
      Run.iterate (round "∞" delay action) 0 total
      emit ["Repeat forever stopped after ", .int total, " iterations"]) := by
  have htimes : foreverTimes (.ofInt total) = .ok (some total) := by
    simp [foreverTimes, Amount.ofInt, Amount.unspecified, Amount.toCount]
  rw [loop, if_pos (by simp [Scalar.same]), h, htimes]
  exact pure_bind _ _

end Batch

namespace Session.Abreast

variable {settings settings' : Settings} {program : List Node} {body : List Node}
  {state : RunState} {session : Session} (hdraw : settings'.draw = settings.draw)
  {options : BatchOptions} (jump : String → Scalar → Run Unit)
  (hbody : ∀ node ∈ body, node.isStatement = true) (hshared : Node.areShared body = true)
  {delay : Scalar} (hdelay : delay.Written) {total : ℕ}
include hdraw hbody hshared hdelay

/-- A loop with a count that is run from start to end is as many ticks, and further ticks change
nothing. -/
theorem loop_int (H : session.Abreast settings program (.int total) body 0 state)
    (hwritten : total < Scalar.writtenBound) {e f : ℕ} (he : e = 970) (hf : f = e + 54)
    (htotal : total < 2 ^ f - 2 ^ e) :
    ∃ after, (Batch.statement settings' options jump (.loop delay (.int total) body)).run state =
        (.ok (), after) ∧
      ∀ extra, Twin after (idleTick^[total + extra] session).state := by
  have hlimit : ((Process.limit? ⟨.int total, body, 0⟩).getD "∞").Written := by
    simpa [Process.limit?, Scalar.same_int_text] using hwritten
  obtain ⟨result, after, rounds, hrun, H', hend, hbound⟩ :=
    H.iterate hdraw options jump hbody hshared (toString total) hdelay hlimit total
      fun index hindex => by rw [Process.isFinished_int, decide_eq_false (by omega)]
  obtain ⟨rfl, rfl⟩ := hbound (by omega)
  rw [Batch.statement, Batch.loop_int options delay _ he hf htotal]
  obtain ⟨last, hlast, htwin⟩ := H'.twin.attempt_left hrun hend settings'
  refine ⟨last, hlast, fun extra => ?_⟩
  have hrests : Process.Rests settings program ⟨.int total, body, 0 + total⟩ :=
    Process.rests_of_finished (by rw [Process.isFinished_int, decide_eq_true (by omega)])
  have Hlast : (idleTick^[total] session).Abreast settings program (.int total) body (0 + total)
      last := { H' with twin := htwin }
  rw [Nat.add_comm, Function.iterate_add_apply]
  exact (Hlast.rests hrests extra).twin

/-- A loop without end that is run from start to end is as many ticks as the limit says. -/
theorem loop_forever (H : session.Abreast settings program "forever" body 0 state)
    (hforever : options.foreverLimit = .ofInt total) :
    ∃ after, (Batch.statement settings' options jump (.loop delay "forever" body)).run state =
        (.ok (), after) ∧
      Twin after (idleTick^[total] session).state := by
  have hlimit : ((Process.limit? ⟨"forever", body, 0⟩).getD "∞").Written := by
    simp [Process.limit?, Scalar.same]
  obtain ⟨result, after, rounds, hrun, H', hend, -⟩ :=
    H.iterate hdraw options jump hbody hshared "∞" hdelay hlimit total fun index _ =>
      Process.isFinished_forever body index
  rw [Batch.statement, Batch.loop_forever delay _ hforever]
  cases result with
  | error stop =>
    refine H'.twin.attempt_left ?_ hend settings'
    rw [run_bind, hrun]
  | ok a =>
    obtain ⟨result, last, hemit, hend, htwin⟩ := H'.twin.emit_left
      ["Repeat forever stopped after ", .int total, " iterations"]
    refine htwin.attempt_left ?_ hend settings'
    rw [run_bind, hrun]
    exact hemit

end Session.Abreast

/-! ## Whole programs -/

theorem Batch.block_append (settings : Settings) (options : BatchOptions)
    (jump : String → Scalar → Run Unit) (first second : List Node) :
    Batch.block settings options jump (first ++ second) = (do
      Batch.block settings options jump first
      Batch.block settings options jump second) := by
  induction first with
  | nil => rw [List.nil_append, Batch.block, pure_bind]
  | cons node rest ih => rw [List.cons_append, Batch.block, Batch.block, ih, bind_assoc]

/-- The setup does not stop. -/
theorem Stepwise.completes_preparation (settings : Settings) {nodes : List Node}
    (h : ∀ node ∈ nodes, node.isPreparation = true) :
    Completes (fun _ => True) (nodes.forM (setupStatement settings)) := by
  have hinvariant := World.stable_true.session settings
  refine .forM fun node hnode => ?_
  cases node with
  | canvas width height => exact hinvariant.completes_attempt settings (hinvariant.canvas trivial)
  | spawn id x y state =>
    exact hinvariant.completes_attempt settings
      (hinvariant.plain trivial (show plain? settings (.spawn id x y state) = _ from rfl))
  | define name value =>
    exact hinvariant.completes_attempt settings
      (hinvariant.plain trivial (show plain? settings (.define name value) = _ from rfl))
  | _ => cases h _ hnode

theorem Process.ofProgram_append_loop {setup : List Node}
    (h : ∀ node ∈ setup, node.isPreparation = true) (delay count : Scalar) (body : List Node) :
    Process.ofProgram (setup ++ [.loop delay count body]) = [⟨count, body, 0⟩] := by
  have hnone : Process.ofProgram setup = [] := by
    refine List.filterMap_eq_nil_iff.mpr fun node hnode => ?_
    cases node with
    | loop => cases h _ hnode
    | _ => rfl
  rw [ofProgram] at hnone
  rw [ofProgram, List.filterMap_append, hnone]
  rfl

namespace Session

/-- The setup does what the statements before the loop do in a run from start to end. -/
theorem twin_setupActions {settings settings' : Settings} (hdraw : settings'.draw = settings.draw)
    (options : BatchOptions) (jump : String → Scalar → Run Unit) {setup : List Node}
    (hsetup : ∀ node ∈ setup, node.isPreparation = true) (delay count : Scalar) (body : List Node)
    {state state' : RunState} (h : Twin state state') :
    ∃ after, (Batch.block settings' options jump setup).run state = (.ok (), after) ∧
      Twin after
        ((setupActions settings (setup ++ [.loop delay count body])).run state').2 := by
  let prepare : Run Unit := do
    trace settings ["Initializing..."]
    setup.forM (Stepwise.setupStatement settings)
  have hbegin : ∀ piece ∈ [Scalar.text "Initializing..."], piece.Written := by simp
  have hprepare : Completes (fun _ => True) prepare :=
    .bind (World.stable_true.robust.completes_trace settings hbegin) fun _ =>
      Stepwise.completes_preparation settings hsetup
  have halike : Alike (Batch.block settings' options jump setup) prepare := by
    rw [← pure_bind () fun _ => Batch.block settings' options jump setup]
    exact .bind (.of_silent silent_pure (silent_trace settings hbegin)) fun _ =>
      alike_preparation options jump hdraw setup hsetup
  obtain ⟨after, prepared, hrun, hrun', htwin⟩ := halike.exists_run hprepare h
  refine ⟨after, hrun, ?_⟩
  have hactions : setupActions settings (setup ++ [.loop delay count body]) = (do
      prepare
      Stepwise.setupStatement settings (.loop delay count body)
      trace settings ["Found ", .int (Process.ofProgram
        (setup ++ [.loop delay count body])).length, " repeat blocks to process"]) := by
    simp only [setupActions, prepare, List.forM_eq_forM, List.forM_append, List.forM_cons,
      List.forM_nil, bind_assoc, pure_bind]
  rw [hactions, run_bind, hrun']
  exact htwin.traces_right settings _ _

/-- After the setup the session is abreast of the run, which comes to its loop. -/
theorem abreast_setUp {settings settings' : Settings} (hdraw : settings'.draw = settings.draw)
    (options : BatchOptions) (jump : String → Scalar → Run Unit) {setup : List Node}
    (hsetup : ∀ node ∈ setup, node.isPreparation = true) (delay count : Scalar)
    (body : List Node) :
    ∃ after, (Batch.block settings' options jump setup).run (.start .empty) = (.ok (), after) ∧
      (create settings (setup ++ [.loop delay count body])).setUp.Abreast settings
        (setup ++ [.loop delay count body]) count body 0 after := by
  have hprocesses := Process.ofProgram_append_loop hsetup delay count body
  have hempty : Twin (.start .empty) (.start .empty) := ⟨rfl, rfl, rfl⟩
  rw [create, act_eq]
  obtain ⟨after, hrun, htwin⟩ := twin_setupActions hdraw options jump hsetup delay count body
    (hempty.trace_right settings ["StepInterpreter created with ",
      .int (setup ++ [Node.loop delay count body]).length, " AST nodes"])
  refine ⟨after, hrun, ?_⟩
  rw [setUp_eq rfl]
  dsimp only
  exact ⟨rfl, rfl, rfl, hprocesses, htwin⟩

end Session

/-- A run of a program that ends with a loop. -/
theorem Batch.run_append_loop {settings : Settings} {options : BatchOptions}
    {setup body : List Node} {delay count : Scalar} {state after last : RunState}
    (hsetup : (Batch.block settings options (Batch.jump settings options
        (setup ++ [.loop delay count body]) (assignedKeysAll (setup ++ [.loop delay count body])))
      setup).run state = (.ok (), after))
    (hloop : (Batch.statement settings options (Batch.jump settings options
        (setup ++ [.loop delay count body]) (assignedKeysAll (setup ++ [.loop delay count body])))
      (.loop delay count body)).run after = (.ok (), last)) :
    (Batch.run settings options (setup ++ [.loop delay count body])).run state =
      (.ok (), last) := by
  rw [Batch.run, Batch.block_append, run_bind, hsetup]
  dsimp only
  rw [Batch.block, run_bind, hloop]
  dsimp only
  rw [Batch.block]
  rfl

/-- **One loop does the same in both kinds of run.** Let a program come from a text: statements that
set the canvas, spawn objects or set variables, and then a loop whose block holds no loops and binds
no keys, at any depth of conditions. With the same draws, traced or not and whoever listens, the run
from start to end comes to its end in the world in which the run tick by tick is after the setup and
as many ticks without input as there are rounds: the count of the loop, if this is less than
`2 ^ 1024` by more than half the distance of floating point numbers there, or the limit on a loop
without end. In the first case further ticks change nothing. -/
theorem single_loop_agrees {depth : ℕ} {source : String} {setup body : List Node}
    {delay count : Scalar}
    (hsource : parseSource depth source = .ok (setup ++ [.loop delay count body]))
    (hsetup : ∀ node ∈ setup, node.isPreparation = true) (hbody : Node.areShared body = true)
    (draw : ℕ → Scalar) (debug debug' : Bool) (listener listener' : Listener)
    (options : BatchOptions) (total : ℕ) :
    let program := setup ++ [.loop delay count body]
    let outcome := (Batch.run (.batch debug listener draw) options program).run (.start .empty)
    let session := (Session.create (.stepwise debug' listener' draw) program).setUp
    (count = .int total → total < 2 ^ 1024 - 2 ^ 970 → outcome.1 = .ok () ∧
      ∀ extra, outcome.2.world = (Session.idleTick^[total + extra] session).state.world) ∧
    (count = "forever" → options.foreverLimit = .ofInt total → outcome.1 = .ok () ∧
      outcome.2.world = (Session.idleTick^[total] session).state.world) := by
  intro program outcome session
  have hloop : (Node.loop delay count body).isStatement = true :=
    List.all_eq_true.mp (settles_of_parseSource hsource).1 _ (by simp)
  simp only [Node.isStatement, Bool.and_eq_true] at hloop
  obtain ⟨⟨hdelay, hcount⟩, hblock⟩ := hloop
  have hdelay : delay.Written := by
    obtain ⟨n, hn, rfl⟩ := Scalar.exists_of_isNumeral hdelay
    simpa using hn
  have hstatements : ∀ node ∈ body, node.isStatement = true :=
    fun _ => Node.isStatement_of_mem hblock
  have hdraw : (Settings.batch debug listener draw).draw =
    (Settings.stepwise debug' listener' draw).draw := rfl
  obtain ⟨after, hbegin, H⟩ := Session.abreast_setUp hdraw options
    (Batch.jump (.batch debug listener draw) options program (Batch.assignedKeysAll program))
    hsetup delay count body
  constructor
  · rintro rfl htotal
    have hwritten : total < Scalar.writtenBound := by
      simpa [Node.isCount, Scalar.isNumeral] using hcount
    obtain ⟨last, hlast, htwin⟩ := H.loop_int (f := 1024) hdraw _ hstatements hbody
      hdelay hwritten rfl rfl htotal
    have houtcome : outcome = (.ok (), last) := Batch.run_append_loop hbegin hlast
    rw [houtcome]
    exact ⟨rfl, fun extra => (htwin extra).world_eq⟩
  · rintro rfl hlimit
    obtain ⟨last, hlast, htwin⟩ := H.loop_forever hdraw _ hstatements hbody hdelay hlimit
    have houtcome : outcome = (.ok (), last) := Batch.run_append_loop hbegin hlast
    rw [houtcome]
    exact ⟨rfl, htwin.world_eq⟩

/-- A program in which an object goes right, with a variable that is drawn anew in each round. -/
def paceProgram (count : Scalar) : List Node :=
  [.canvas (.int 3) (.int 1),
    .spawn (.number (.int 1)) (.number (.int 0)) (.number (.int 0)) (.number (.int 0))] ++
    [.loop (.int 100) count
      [.define "a" (.call "random" [.number (.int 1), .number (.int 6)]),
        .move (.number (.int 1)) .absent .absent "right" (.read "a") (.bool false)]]

/-- The text of `paceProgram` with the words for the count. -/
def paceSource (count : String) : String :=
  "canvas 3 1\nspawn id=1 x=0 y=0\nrepeat 100 " ++ count ++
    "\n. ref=a([random(1,6)])\n. move id=1 right set=ref(a)\n"

theorem parseSource_paceSource :
    parseSource nestingLimit (paceSource "4") = .ok (paceProgram (.int 4)) ∧
    parseSource nestingLimit (paceSource "forever") = .ok (paceProgram "forever") :=
  ⟨parseSource_of_sameAll (by decide +kernel) (by decide +kernel),
    parseSource_of_sameAll (by decide +kernel) (by decide +kernel)⟩

theorem single_loop_agrees_pace :
    ((Batch.run (.batch true .recording (drawsOfSeed 7)) {} (paceProgram (.int 4))).run
        (.start .empty)).2.world =
      (Session.idleTick^[4 + 2] (Session.create (.stepwise false .absent (drawsOfSeed 7))
        (paceProgram (.int 4))).setUp).state.world ∧
    ((Batch.run (.batch false .absent (drawsOfSeed 7)) ⟨.ofInt 9, .int 10⟩
        (paceProgram "forever")).run (.start .empty)).2.world =
      (Session.idleTick^[9] (Session.create (.stepwise true .recording (drawsOfSeed 7))
        (paceProgram "forever")).setUp).state.world := by
  have hcounted := single_loop_agrees parseSource_paceSource.1 (by decide) (by decide)
    (drawsOfSeed 7) true false .recording .absent {} 4
  have hforever := single_loop_agrees parseSource_paceSource.2 (by decide) (by decide)
    (drawsOfSeed 7) false true .absent .recording ⟨.ofInt 9, .int 10⟩ 9
  unfold paceProgram
  constructor
  · exact (hcounted.1 rfl (by decide +kernel)).2 2
  · exact (hforever.2 rfl rfl).2

/-! ## A count that is too large -/

/-- The greatest count below `2 ^ 1024`. -/
def largeCount : ℕ := 2 ^ 1024 - 1

/-- The text of a loop with this count that sets a variable. -/
def largeSource : String := "repeat 1 " ++ toString largeCount ++ "\n. ref=a(1)\n"

/-- The block of the loop. -/
def largeBody : List Node := [.define "a" (.number (.int 1))]

/-- The program of `largeSource`. -/
def largeProgram : List Node := [.loop (.int 1) (.int largeCount) largeBody]

theorem parseSource_largeSource : parseSource nestingLimit largeSource = .ok largeProgram := by
  refine parseSource_of_sameAll (by decide +kernel) ?_
  have htext : largeSource.toList =
      "repeat 1 ".toList ++ Nat.toDigits 10 largeCount ++ "\n. ref=a(1)\n".toList := by
    rw [largeSource, String.toList_append, String.toList_append]
    simp only [toString, Nat.toList_repr]
  rw [parseSource, tokenize, htext]
  decide +kernel

/-- A report leaves alone what lines leave alone, also if it stops. -/
theorem Run.Quiet.ensures_emit {I : RunState → Prop} (hI : Quiet I)
    {halt : Stop → RunState → Prop} (hhalt : ∀ stop state, I state → halt stop state)
    (pieces : List Scalar) : Ensures I (emit pieces) (fun _ => I) halt :=
  (hI.maintains_emit (E := True) pieces).mono (fun _ h => h) (fun _ _ h => h)
    fun stop state h => hhalt stop state h.2

/-- What every action brings about holds after some of them. -/
theorem Run.ensures_iterate {I : RunState → Prop} {action : ℕ → Run Unit}
    (h : ∀ index, Ensures (fun _ => True) (action index) (fun _ => I) fun _ _ => True)
    (start times : ℕ) :
    Ensures (fun _ => True) (iterate action start (times + 1)) (fun _ => I) fun _ _ => True := by
  induction times generalizing start with
  | zero => exact (h start).bind fun _ => .pure fun _ hstate => hstate
  | succ times ih =>
    exact (h start).bind fun _ => (ih (start + 1)).mono (fun _ _ => trivial) (fun _ _ h => h)
      fun _ _ h => h

/-- Whether the variable of `largeSource` is set. -/
def IsSet (state : RunState) : Prop := state.world.vars.get? "a" = some (.int 1)

theorem quiet_isSet : Quiet IsSet := ⟨fun _ _ h => h, fun _ h => h⟩

theorem ensures_largeBody (settings : Settings) (options : BatchOptions)
    (jump : String → Scalar → Run Unit) :
    Ensures (fun _ => True) (Batch.block settings options jump largeBody) (fun _ => IsSet)
      fun _ _ => True := by
  have hvalue : ∀ state, valueOf settings (.number (.int 1)) state = .int 1 := fun _ => rfl
  have hdefine : Ensures (fun _ => True) (define settings "a" (.number (.int 1))) (fun _ => IsSet)
      fun _ => IsSet := by
    refine .value_bind fun found _ => ?_
    have hset : Ensures (· = evaluated settings (.number (.int 1)) found)
        (setVariable "a" (.int 1)) (fun _ => IsSet) fun _ => IsSet :=
      ⟨fun state _ => Table.get?_insert_self state.world.vars "a" (.int 1)⟩
    rw [hvalue]
    exact hset.bind fun _ => quiet_isSet.ensures_emit (fun _ _ h => h) _
  rw [largeBody, Batch.block, Batch.block, Batch.statement_of_plain rfl, bind_pure_unit]
  refine .tryCatch hdefine fun stop => ?_
  cases stop with
  | endless => exact .throw fun _ _ => trivial
  | fault fault =>
    exact (quiet_isSet.completes_report settings fault).mono (fun _ h => h) (fun _ _ h => h)
      fun _ _ h => h.elim

theorem ensures_largeRound (settings : Settings) (options : BatchOptions)
    (jump : String → Scalar → Run Unit) (label : String) (delay : Scalar) (index : ℕ) :
    Ensures (fun _ => True)
      (Batch.round label delay (Batch.block settings options jump largeBody) index)
      (fun _ => IsSet) fun _ _ => True :=
  (World.stable_true.robust.toQuiet.ensures_emit (fun _ _ h => h) _).bind fun _ =>
    (ensures_largeBody settings options jump).bind fun _ =>
      quiet_isSet.ensures_emit (fun _ _ _ => trivial) _

/-- Tick by tick the variable is set, however large the count. -/
theorem isSet_of_ticks (settings : Settings) {total : ℕ} (hpos : 0 < total)
    (htotal : total < Scalar.writtenBound) :
    IsSet (Session.idleTick^[total]
      (Session.create settings [.loop (.int 1) (.int total) largeBody]).setUp).state := by
  let jump : String → Scalar → Run Unit := fun _ _ => pure ()
  have hone : 1 < Scalar.writtenBound := by omega
  have hdelay : (Scalar.int 1).Written := by simpa using hone
  have hlimit : ((Process.limit? ⟨.int total, largeBody, 0⟩).getD "∞").Written := by
    simpa [Process.limit?, Scalar.same_int_text] using htotal
  obtain ⟨state, -, H⟩ := Session.abreast_setUp (rfl : settings.draw = settings.draw) {} jump
    (List.forall_mem_nil _) (.int 1) (.int total) largeBody
  rw [List.nil_append] at H
  obtain ⟨result, after, _, hrun, H', -, hbound⟩ := H.iterate (rfl : settings.draw = _) {} jump
    (show ∀ node ∈ largeBody, _ by decide +kernel) (by decide) "" hdelay hlimit total
    fun index hindex => by rw [Process.isFinished_int, decide_eq_false (by omega)]
  obtain ⟨rfl, -⟩ := hbound (by omega)
  obtain ⟨times, rfl⟩ := Nat.exists_eq_add_one.mpr hpos
  have hrounds : Ensures (fun _ => True)
      (iterate (Batch.round "" (.int 1) (Batch.block settings {} jump largeBody)) 0 (times + 1))
      (fun _ => IsSet) fun _ _ => True :=
    ensures_iterate (ensures_largeRound settings {} jump "" (.int 1)) 0 times
  have hset : IsSet after := hrounds.of_run_eq_ok trivial hrun
  rw [IsSet, ← H'.twin.world_eq]
  exact hset

/-- **A count that is too large for floating point** makes the two kinds of run part: the run from
start to end refuses it and leaves the variable unset, while the run tick by tick sets it. -/
theorem single_loop_parts :
    parseSource nestingLimit largeSource = .ok largeProgram ∧ Node.areShared largeBody = true ∧
    largeCount < 2 ^ 1024 ∧
    ((Batch.run (.batch false .absent fun _ => .int 0) {} largeProgram).run
      (.start .empty)).2.world.vars.get? "a" = none ∧
    (Session.idleTick^[largeCount] (Session.create (.stepwise false .absent fun _ => .int 0)
      largeProgram).setUp).state.world.vars.get? "a" = some (.int 1) := by
  refine ⟨parseSource_largeSource, rfl, by decide +kernel, by decide +kernel, ?_⟩
  have hset := isSet_of_ticks (.stepwise false .absent fun _ => .int 0)
    (show 0 < largeCount by decide +kernel) (by decide +kernel)
  rw [IsSet] at hset
  unfold largeProgram
  exact hset

end TileScript
