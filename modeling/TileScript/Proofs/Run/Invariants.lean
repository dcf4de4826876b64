import TileScript.Proofs.Run.Ensures
import TileScript.Proofs.World.Edits
import TileScript.Run.Batch
import TileScript.Run.Stepwise

/-!
# Invariants of runs

A property of states that every statement without blocks maintains is maintained by whole programs,
run from start to end or tick by tick: conditions, loops, jumps and interrupts only write lines,
take draws and run blocks. The statements may be restricted to some kind of nodes, as long as the
blocks of such a node hold only such nodes.

## Main definitions

* `Run.Robust`: properties of states that no change of the world touches.
* `Run.Hereditary`: kinds of nodes whose blocks are of the same kind.
* `Run.Invariant`, `Batch.Invariant`, `Stepwise.Invariant`, `Session.Invariant`: properties that the
  statements of a kind maintain.
* `Session.Call`, `Session.call`: the calls of a host.

## Main statements

* `Batch.Invariant.maintains_run`: runs from start to end.
* `Stepwise.completes_block`: the blocks of a run tick by tick, none of which stops.
* `Session.Holds.calls`: the calls of a host that drives a run tick by tick.
-/

namespace TileScript

namespace Run

variable {E : Prop} {I : RunState → Prop} {settings : Settings} {good : Node → Prop}

/-! ## Changes of the world -/

/-- A property of states that lines, draws, events and changes of the world leave alone. -/
structure Robust (I : RunState → Prop) : Prop extends Quiet I where
  events : ∀ {state : RunState} (events : Array Event), I state → I { state with events }
  edit : ∀ {state : RunState} (edit : World.Edit),
    I state → I { state with world := state.world.edit edit }

theorem maintains_recordOf (id : Scalar) : Maintains E I (recordOf id) := by
  refine .get_bind fun state => ?_
  split
  · exact .pure _
  · exact .throw _

namespace Robust

variable (hI : Robust I)
include hI

theorem maintains_notify (settings : Settings) (name : String) :
    Maintains E I (notify settings name) := by
  rw [notify]
  split
  · exact .pure _
  · exact .modify fun _ h => hI.events _ h
  · exact (hI.completes_write _ _).maintains

theorem maintains_change {α : Type} {operation : World → Outcome α} (edit : World.Edit)
    (h : ∀ world, (operation world).1 = world.edit edit) : Maintains E I (change operation) := by
  refine ⟨fun state hstate => ?_⟩
  rw [run_change, h]
  cases (operation state.world).2 with
  | ok a => exact hI.edit edit hstate
  | error fault => exact ⟨nofun, hI.edit edit hstate⟩

theorem maintains_canvas (width height : Scalar) :
    Maintains E I (canvas settings width height) := by
  refine .bind (hI.maintains_change (.resize width height) fun _ => rfl) fun dropped => ?_
  refine .bind (hI.maintains_emit _) fun _ => ?_
  split
  · exact hI.maintains_notify settings _
  · exact .bind (hI.maintains_emit _) fun _ => hI.maintains_notify settings _

theorem maintains_spawn (id x y objectState : Node) :
    Maintains E I (spawn settings id x y objectState) := by
  refine .bind (hI.completes_value settings id).maintains fun id => ?_
  refine .bind (hI.completes_value settings x).maintains fun x => ?_
  refine .bind (hI.completes_value settings y).maintains fun y => ?_
  refine .bind (hI.completes_value settings objectState).maintains fun objectState => ?_
  refine .bind (hI.maintains_change (.spawn id x y objectState) fun _ => rfl)
    fun evicted => ?_
  refine .bind (maintains_recordOf id) fun object => ?_
  have hend : Maintains E I (do
      emit ["Spawned id=", object.id, " at (", object.x, ",", object.y, ") state=", object.state]
      notify settings "spawn") :=
    .bind (hI.maintains_emit _) fun _ => hI.maintains_notify settings _
  split
  · exact hend
  · exact .bind (hI.maintains_emit _) fun _ => hend

theorem maintains_despawn (id : Node) : Maintains E I (despawn settings id) := by
  refine .bind (hI.completes_value settings id).maintains fun id => ?_
  refine .bind (hI.maintains_change (.despawn id) fun _ => rfl) fun _ => ?_
  exact .bind (hI.maintains_emit _) fun _ => hI.maintains_notify settings _

theorem maintains_move (id x y : Node) (direction : Scalar) (objectState : Node) (swap : Scalar) :
    Maintains E I (move settings id x y direction objectState swap) := by
  refine .bind (hI.completes_value settings id).maintains fun id => ?_
  refine .bind (hI.completes_optionalValue settings x).maintains fun x => ?_
  refine .bind (hI.completes_optionalValue settings y).maintains fun y => ?_
  refine .bind (hI.completes_optionalValue settings objectState).maintains fun objectState => ?_
  refine .bind (hI.maintains_change (.move id direction x y objectState swap)
    fun _ => rfl) fun _ => ?_
  exact .bind (maintains_recordOf id) fun _ =>
    .bind (hI.maintains_emit _) fun _ => hI.maintains_notify settings _

end Robust

theorem Quiet.maintains_wait (hI : Quiet I) (duration : Scalar) : Maintains E I (wait duration) :=
  .bind (.ofExcept _) fun _ => .ite (hI.maintains_emit _) (.throw _)

theorem Quiet.maintains_compute (hI : Quiet I) (node : Node) :
    Maintains E I (compute settings node) :=
  .bind (hI.completes_value settings node).maintains fun _ => hI.maintains_emit _

/-! ## Kinds of statements -/

/-- A kind of nodes whose blocks are of the same kind. -/
structure Hereditary (good : Node → Prop) : Prop where
  loop : ∀ {delay count body}, good (.loop delay count body) → ∀ node ∈ body, good node
  branch : ∀ {left relation right key whenTrue whenFalse},
    good (.branch left relation right key whenTrue whenFalse) →
    (∀ node ∈ whenTrue, good node) ∧ ∀ node ∈ whenFalse, good node

theorem hereditary_true : Hereditary fun _ => True := ⟨by simp, by simp⟩

/-- The blocks of the statements of the grammar hold such statements. -/
theorem hereditary_isStatement : Hereditary fun node => node.isStatement = true where
  loop h := by
    simp only [Node.isStatement, Bool.and_eq_true] at h
    exact fun _ => Node.isStatement_of_mem h.2
  branch h := by
    simp only [Node.isStatement, Bool.and_eq_true] at h
    exact ⟨fun _ => Node.isStatement_of_mem h.1.2, fun _ => Node.isStatement_of_mem h.2⟩

/-- The conditions of a program that test a key have blocks of the program's kind. -/
theorem Hereditary.watchers (hgood : Hereditary good) {program : List Node}
    (hprogram : ∀ node ∈ program, good node) {key : String} {watcher : Node × List Node}
    (h : watcher ∈ watchers program key) : ∀ node ∈ watcher.2, good node := by
  obtain ⟨node, hnode, hwatcher⟩ := List.mem_filterMap.mp h
  split at hwatcher
  · next left relation right tested whenTrue whenFalse =>
    rw [Option.ite_none_right_eq_some] at hwatcher
    obtain ⟨-, rfl⟩ : _ ∧ (left, whenTrue) = watcher := by simpa using hwatcher
    exact (hgood.branch (hprogram _ hnode)).1
  · simp at hwatcher

/-- A property that lines and draws leave alone and that the statements without blocks of a kind
maintain. -/
structure Invariant (settings : Settings) (good : Node → Prop) (I : RunState → Prop) : Prop
    extends Quiet I where
  plain : ∀ {node : Node} {action : Run Unit}, good node → plain? settings node = some action →
    Maintains False I action

theorem Maintains.of_false {α : Type} {action : Run α} (h : Maintains False I action) :
    Maintains E I action :=
  h.mono (fun _ h => h) (fun _ _ h => h) fun _ _ h => ⟨fun hstop => (h.1 hstop).elim, h.2⟩

/-- Only definitions are more than a change of the world. -/
theorem Robust.invariant (hI : Robust I)
    (hdefine : ∀ {name node}, good (.define name node) →
      Maintains False I (define settings name node)) : Invariant settings good I where
  toQuiet := hI.toQuiet
  plain {node action} hnode haction := by
    cases node with
    | define name node => cases haction; exact hdefine hnode
    | compute node => cases haction; exact hI.maintains_compute node
    | spawn id x y state => cases haction; exact hI.maintains_spawn _ _ _ _
    | despawn id => cases haction; exact hI.maintains_despawn _
    | move id x y direction state swap => cases haction; exact hI.maintains_move _ _ _ _ _ _
    | wait duration => cases haction; exact hI.maintains_wait duration
    | _ => cases haction

end Run

/-! ## Runs from start to end -/

namespace Batch

open Run

variable {E : Prop} {I : RunState → Prop} {settings : Settings} {options : BatchOptions}
  {good : Node → Prop}

theorem foreverTimes_eq_none {limit : Amount} (h : foreverTimes limit = .ok none) :
    limit = .unspecified := by
  rw [foreverTimes] at h
  split at h
  · assumption
  · obtain ⟨count, -, h⟩ := bind_eq_ok_iff.mp h
    cases h

theorem statement_of_plain {jump : String → Scalar → Run Unit} {node : Node} {action : Run Unit}
    (h : plain? settings node = some action) :
    statement settings options jump node = attempt settings action := by
  cases node <;> cases h <;> rfl

/-- A property that all statements of a kind maintain in a run from start to end, loops and
conditions aside, given that the jumps they make maintain it. -/
structure Invariant (settings : Settings) (good : Node → Prop) (I : RunState → Prop) : Prop
    extends Run.Invariant settings good I where
  canvas : ∀ {width height : Scalar}, good (.canvas width height) →
    Maintains False I (canvas settings width height)
  assign : ∀ {E : Prop} {jump : String → Scalar → Run Unit} {key : String} {node : Node},
    good (.assign key node) → (∀ key value, Maintains E I (jump key value)) →
    Maintains E I (assign settings jump key node)

namespace Invariant

section

variable (hI : Invariant settings good I)
include hI

theorem maintains_round (label : String) (delay : Scalar) {body : Run Unit}
    (h : Maintains E I body) (index : ℕ) : Maintains E I (round label delay body index) := by
  rw [round]
  exact .bind (hI.maintains_emit _) fun _ => .bind h fun _ => hI.maintains_emit _

theorem maintains_loop (hlimit : options.foreverLimit = .unspecified → E) (delay count : Scalar)
    {body : Run Unit} (h : Maintains E I body) : Maintains E I (loop options delay count body) := by
  rw [loop]
  split
  · have htimes : Ensures I (ofExcept (foreverTimes options.foreverLimit))
        (fun times state => (times = none → E) ∧ I state)
        fun stop state => (stop = .endless → E) ∧ I state := by
      cases htimes : foreverTimes options.foreverLimit with
      | error fault => exact .throw fun _ hstate => ⟨nofun, hstate⟩
      | ok times =>
        refine .pure fun _ hstate => ⟨fun hnone => ?_, hstate⟩
        exact hlimit (foreverTimes_eq_none (hnone ▸ htimes))
    refine Ensures.bind htimes fun times => .of_imp fun hend => ?_
    cases times with
    | none =>
      exact Ensures.bind (hI.maintains_round _ _ h 0) fun _ =>
        .throw fun _ hafter => ⟨fun _ => hend rfl, hafter⟩
    | some limit =>
      exact Maintains.bind (.iterate (hI.maintains_round _ _ h) 0 limit) fun _ =>
        hI.maintains_emit _
  · exact .bind (.ofExcept _) fun rounds => .iterate (hI.maintains_round _ _ h) 0 rounds

theorem maintains_condition (left : Node) (relation : Scalar) (right : Node) (key : Scalar) :
    Maintains E I (condition settings left relation right key) := by
  rw [condition]
  refine .bind (hI.completes_value settings left).maintains fun left => .ite (.ite ?_ ?_) ?_
  · exact .get_bind fun _ => .pure _
  · exact .bind (.throw _) fun _ => .get_bind fun _ => .pure _
  · exact .bind (hI.maintains_spatialCondition settings _ _ _) fun _ => .pure _

theorem maintains_branch (left : Node) (relation : Scalar) (right : Node) (key : Scalar)
    {whenTrue whenFalse : Run Unit} (htrue : Maintains E I whenTrue)
    (hfalse : Maintains E I whenFalse) :
    Maintains E I (branch settings left relation right key whenTrue whenFalse) := by
  rw [branch]
  exact .bind (hI.maintains_condition left relation right key) fun _ =>
    .bind (hI.maintains_emit _) fun _ => .ite htrue hfalse

end

mutual

/-- A statement maintains what the jumps it may make maintain. -/
theorem maintains_statement (hI : Invariant settings good I) (hgood : Hereditary good)
    (hlimit : options.foreverLimit = .unspecified → E) {jump : String → Scalar → Run Unit}
    (hjump : ∀ key value, Maintains E I (jump key value)) (node : Node) (hnode : good node) :
    Maintains E I (statement settings options jump node) := by
  cases node with
  | canvas width height =>
    rw [statement]
    exact hI.maintains_attempt settings (hI.canvas hnode).of_false
  | loop delay count body =>
    rw [statement]
    exact hI.maintains_attempt settings
      (hI.maintains_loop hlimit _ _ (maintains_block hI hgood hlimit hjump body (hgood.loop hnode)))
  | branch left relation right key whenTrue whenFalse =>
    rw [statement]
    exact hI.maintains_attempt settings (hI.maintains_branch _ _ _ _
      (maintains_block hI hgood hlimit hjump whenTrue (hgood.branch hnode).1)
      (maintains_block hI hgood hlimit hjump whenFalse (hgood.branch hnode).2))
  | assign key node =>
    rw [statement]
    exact hI.maintains_attempt settings (hI.assign hnode hjump)
  | define | compute | spawn | despawn | move | wait =>
    rw [statement_of_plain rfl]
    exact hI.maintains_attempt settings (hI.plain hnode rfl).of_false
  | _ =>
    change Maintains E I (unknown settings _)
    rw [unknown]
    exact .bind (.ofExcept _) fun _ => (hI.completes_logError settings _).maintains

theorem maintains_block (hI : Invariant settings good I) (hgood : Hereditary good)
    (hlimit : options.foreverLimit = .unspecified → E) {jump : String → Scalar → Run Unit}
    (hjump : ∀ key value, Maintains E I (jump key value)) (nodes : List Node)
    (hnodes : ∀ node ∈ nodes, good node) :
    Maintains E I (block settings options jump nodes) := by
  cases nodes with
  | nil => rw [block]; exact .pure ()
  | cons node rest =>
    rw [block]
    exact .bind (maintains_statement hI hgood hlimit hjump node (hnodes node List.mem_cons_self))
      fun _ => maintains_block hI hgood hlimit hjump rest fun node' hnode =>
        hnodes node' (List.mem_cons_of_mem node hnode)

end

/-- A jump maintains what the statements maintain: the jumps made in it have fewer idle keys. -/
theorem maintains_jump (hI : Invariant settings good I) (hgood : Hereditary good)
    (hlimit : options.foreverLimit = .unspecified → E) {program : List Node}
    (hprogram : ∀ node ∈ program, good node) (idle : List String) (key : String)
    (value : Scalar) : Maintains E I (jump settings options program idle key value) := by
  induction hlength : idle.length using Nat.strong_induction_on generalizing idle key value with
  | _ n ih =>
    subst hlength
    rw [jump]
    split
    · next hkey =>
      refine .forM fun ⟨left, whenTrue⟩ hwatcher => ?_
      refine .bind (hI.completes_value settings left).maintains fun id => .ite ?_ (.pure _)
      refine .bind (hI.maintains_emit _) fun _ =>
        hI.maintains_block hgood hlimit (fun key' value' => ?_) whenTrue
          (hgood.watchers hprogram hwatcher)
      exact ih _ (length_without_lt hkey) _ key' value' rfl
    · exact (hI.completes_logError settings _).maintains

/-- A run from start to end maintains what the statements of its program maintain. -/
theorem maintains_run (hI : Invariant settings good I) (hgood : Hereditary good)
    {program : List Node} (hprogram : ∀ node ∈ program, good node) :
    Maintains (options.foreverLimit = .unspecified) I (run settings options program) :=
  hI.maintains_block hgood id (hI.maintains_jump hgood id hprogram _) program hprogram

end Invariant

end Batch

/-! ## Runs tick by tick -/

namespace Stepwise

open Run

variable {E : Prop} {I : RunState → Prop} {settings : Settings} {program : List Node}
  {good : Node → Prop}

theorem statement_of_plain {node : Node} {action : Run Unit}
    (h : plain? settings node = some action) :
    statement settings program node = attempt settings action := by
  cases node <;> cases h <;> rfl

section

variable (hI : Quiet I)
include hI

theorem completes_boundIds (key : String) : Completes I (boundIds settings program key) :=
  .mapM (hI.completes_value settings)

theorem completes_heldFor (key id : Scalar) : Completes I (heldFor settings program key id) := by
  unfold heldFor
  split
  · refine .get_bind fun state => ?_
    split
    · exact .bind (completes_boundIds hI _) fun _ => .pure _
    · exact .pure _
  · exact .pure _

theorem maintains_condition (left : Node) (relation : Scalar) (right : Node) (key : Scalar) :
    Maintains E I (condition settings program left relation right key) := by
  rw [condition]
  refine .bind (hI.completes_value settings left).maintains fun left => .ite ?_ ?_
  · exact .bind (completes_heldFor hI _ _).maintains fun _ => .pure _
  · exact .bind (hI.maintains_spatialCondition settings _ _ _) fun _ => .pure _

theorem maintains_branch (left : Node) (relation : Scalar) (right : Node) (key : Scalar)
    {whenTrue whenFalse : Run Unit} (htrue : Maintains E I whenTrue)
    (hfalse : Maintains E I whenFalse) :
    Maintains E I (branch settings program left relation right key whenTrue whenFalse) := by
  rw [branch]
  exact .bind (maintains_condition hI left relation right key) fun _ =>
    .bind (hI.maintains_trace settings _) fun _ => .ite htrue hfalse

end

mutual

/-- A statement of a block never stops. -/
theorem completes_statement (hI : Run.Invariant settings good I) (hgood : Hereditary good)
    (node : Node) (hnode : good node) : Completes I (statement settings program node) := by
  cases node with
  | branch left relation right key whenTrue whenFalse =>
    rw [statement]
    exact hI.completes_attempt settings (maintains_branch hI.toQuiet _ _ _ _
      (completes_block hI hgood whenTrue (hgood.branch hnode).1).maintains
      (completes_block hI hgood whenFalse (hgood.branch hnode).2).maintains)
  | define | compute | spawn | despawn | move | wait =>
    rw [statement_of_plain rfl]
    exact hI.completes_attempt settings (hI.plain hnode rfl)
  | _ => exact hI.completes_logError settings _

theorem completes_block (hI : Run.Invariant settings good I) (hgood : Hereditary good)
    (nodes : List Node) (hnodes : ∀ node ∈ nodes, good node) :
    Completes I (block settings program nodes) := by
  cases nodes with
  | nil => rw [block]; exact .pure ()
  | cons node rest =>
    rw [block]
    exact .bind (completes_statement hI hgood node (hnodes node List.mem_cons_self)) fun _ =>
      completes_block hI hgood rest fun node' hnode =>
        hnodes node' (List.mem_cons_of_mem node hnode)

end

/-- The interrupts of a key maintain what the statements maintain. -/
theorem maintains_interrupt (hI : Run.Invariant settings good I) (hgood : Hereditary good)
    (hprogram : ∀ node ∈ program, good node) (key : String) :
    Maintains False I (interrupt settings program key) := by
  rw [interrupt]
  refine .bind (hI.maintains_trace settings _) fun _ =>
    .bind (completes_boundIds hI.toQuiet key).maintains fun ids =>
      .forM fun bound _ => .forM fun watcher hwatcher => ?_
  refine .bind (hI.completes_value settings _).maintains fun id => .ite ?_ (.pure _)
  exact .bind (hI.maintains_trace settings _) fun _ =>
    (completes_block hI hgood _ (hgood.watchers hprogram hwatcher)).maintains

theorem maintains_interrupts (hI : Run.Invariant settings good I) (hgood : Hereditary good)
    (hprogram : ∀ node ∈ program, good node) (previous : Table String Scalar) :
    Maintains False I (interrupts settings program previous) := by
  rw [interrupts]
  refine .get_bind fun _ => .forM fun _ _ => ?_
  exact .ite (maintains_interrupt hI hgood hprogram _) (.pure _)

/-- A process goes on by one round, or has none left. -/
theorem ensures_advance (hI : Run.Invariant settings good I) (hgood : Hereditary good)
    (program : List Node) (process : Process) (hbody : ∀ node ∈ process.body, good node) :
    Ensures I (process.advance settings program)
      (fun moved state =>
        (moved = none ∨ moved = some { process with rounds := process.rounds + 1 }) ∧ I state)
      fun stop state => (stop = .endless → False) ∧ I state := by
  rw [Process.advance]
  refine Ensures.bind (Maintains.ofExcept _) fun finished => ?_
  split
  · exact .pure fun _ h => ⟨.inl rfl, h⟩
  · exact Ensures.bind (hI.maintains_trace _ _) fun _ =>
      .bind (completes_block hI hgood _ hbody).maintains fun _ => .pure fun _ h => ⟨.inr rfl, h⟩

/-- A property that the setup and the statements of blocks maintain. -/
structure Invariant (settings : Settings) (good : Node → Prop) (I : RunState → Prop) : Prop
    extends Run.Invariant settings good I where
  canvas : ∀ {width height : Scalar}, good (.canvas width height) →
    Maintains False I (canvas settings width height)
  assign : ∀ {key : String} {node : Node}, good (.assign key node) →
    Maintains False I (assign settings key node)

namespace Invariant

variable (hI : Invariant settings good I)
include hI

theorem maintains_setupStatement (node : Node) (hnode : good node) :
    Maintains False I (setupStatement settings node) := by
  cases node with
  | canvas width height => exact hI.maintains_attempt settings (hI.canvas hnode)
  | assign key node => exact hI.maintains_attempt settings (hI.assign hnode)
  | spawn | define => exact hI.maintains_attempt settings (hI.plain hnode rfl)
  | _ => exact hI.maintains_trace settings _

theorem maintains_setupActions (hprogram : ∀ node ∈ program, good node) :
    Maintains False I (Session.setupActions settings program) := by
  rw [Session.setupActions]
  exact .bind (hI.maintains_trace settings _) fun _ =>
    .bind (.forM fun node hnode => hI.maintains_setupStatement node (hprogram node hnode)) fun _ =>
      hI.maintains_trace settings _

end Invariant

end Stepwise

/-- The first process moves before the others, and its stop leaves them as they were. -/
theorem Process.run_advanceAll_cons (settings : Settings) (program : List Node) (process : Process)
    (rest : List Process) (state : RunState) :
    (advanceAll settings program (process :: rest)).run state =
      match (process.advance settings program).run state with
      | (.error stop, after) => ((process :: rest, .error stop), after)
      | (.ok moved, after) =>
        ((moved.getD process :: ((advanceAll settings program rest).run after).1.1,
          (moved.isSome || ·) <$> ((advanceAll settings program rest).run after).1.2),
          ((advanceAll settings program rest).run after).2) := by
  have hrun : StateT.run (process.advance settings program).run state =
      (process.advance settings program).run state := rfl
  rw [advanceAll, StateT.run_bind, hrun]
  cases (process.advance settings program).run state with
  | mk result after => cases result <;> rfl

/-- The processes of a program are its loops, none of which has run. -/
theorem Process.exists_of_mem_ofProgram {program : List Node} {process : Process}
    (h : process ∈ ofProgram program) :
    ∃ delay count body, .loop delay count body ∈ program ∧ process = ⟨count, body, 0⟩ := by
  obtain ⟨node, hnode, hloop⟩ := List.mem_filterMap.mp h
  split at hloop
  · next delay count body => exact ⟨delay, count, body, hnode, (Option.some.inj hloop).symm⟩
  · cases hloop

/-- A move by a key maintains what changes of the world maintain. -/
theorem Run.Robust.maintains_keyMove {E : Prop} {I : RunState → Prop} (hI : Run.Robust I)
    (settings : Settings) (key : String) : Run.Maintains E I (Session.keyMove settings key) := by
  refine ⟨fun state hstate => ?_⟩
  rw [Session.keyMove, Run.run_get_bind]
  split
  · next direction id _ _ =>
    split
    · have hmove := hI.edit (.move id direction .null .null .null (.bool false)) hstate
      have hset : Run.Maintains E I (set { state with
          world := (state.world.move id direction .null .null .null (.bool false)).1 } :
          Run Unit) :=
        ⟨fun _ _ => hmove⟩
      refine (Run.Maintains.bind hset fun _ => ?_).meets state hstate
      split
      · exact .bind (hI.maintains_emit _) fun _ => hI.maintains_notify settings _
      · exact .ite (hI.completes_logError settings _).maintains (.throw _)
    · exact hstate
  · exact hstate

namespace Session

open Run

theorem act_eq (session : Session) (action : Run Unit) :
    (session.act action).1 = { session with state := (action.run session.state).2 } := rfl

theorem setUp_eq {session : Session} (h : session.isSetUp = false) :
    session.setUp = { session with
      state := ((setupActions session.settings session.program).run session.state).2
      processes := Process.ofProgram session.program
      isSetUp := true } := by
  rw [setUp, h]
  rfl

/-- A call of a host. -/
inductive Call where
  | setUp
  | step (inputs : Table String Scalar)
  | pressKey (key : String)

/-- The session after a call, whatever the call gives. -/
def call (session : Session) : Call → Session
  | .setUp => session.setUp
  | .step inputs => (session.step inputs).1
  | .pressKey key => (session.pressKey key).1

/-- The session has the given settings and program, the blocks of its processes are of a kind, and
its state has a property. -/
structure Holds (settings : Settings) (program : List Node) (good : Node → Prop)
    (I : RunState → Prop) (session : Session) : Prop where
  settings_eq : session.settings = settings
  program_eq : session.program = program
  bodies : ∀ process ∈ session.processes, ∀ node ∈ process.body, good node
  state : I session.state

/-- A property that also the host's own doings maintain: the values of keys that it supplies and the
moves by keys. -/
structure Invariant (settings : Settings) (good : Node → Prop) (I : RunState → Prop) : Prop
    extends toStepwise : Stepwise.Invariant settings good I where
  receive : ∀ {state : RunState} (inputs : Table String Scalar), I state → I { state with
    world := { state.world with assignments := state.world.assignments.update inputs } }
  keyMove : ∀ key : String, Maintains False I (keyMove settings key)

theorem Invariant.maintains_openTick {I : RunState → Prop} {settings : Settings}
    {good : Node → Prop} (hI : Session.Invariant settings good I) (hgood : Hereditary good)
    {session : Session} (hsettings : session.settings = settings)
    (hprogram : ∀ node ∈ session.program, good node) (inputs : Table String Scalar) :
    Maintains False I (session.openTick inputs) := by
  rw [openTick, Stepwise.receive, hsettings]
  refine .bind (.bind (.forM fun entry _ => .get_bind fun state => ?_) fun _ =>
    .modify fun _ h => hI.receive inputs h) fun _ =>
      Stepwise.maintains_interrupts hI.toInvariant hgood hprogram _
  exact .ite (.pure _) (hI.maintains_trace settings _)

namespace Holds

variable {I : RunState → Prop} {settings : Settings} {program : List Node} {good : Node → Prop}
  {session : Session}

theorem act (H : session.Holds settings program good I) {action : Run Unit}
    (h : Maintains False I action) : (session.act action).1.Holds settings program good I where
  settings_eq := H.settings_eq
  program_eq := H.program_eq
  bodies := H.bodies
  state := h.state_run H.state

theorem fail (H : session.Holds settings program good I) (hI : Quiet I) (stop : Stop) :
    (session.fail stop).1.Holds settings program good I := by
  cases stop with
  | fault fault => exact H.act (hI.completes_logError session.settings _).maintains
  | endless => exact H

theorem create (hI : Quiet I) (hempty : I (.start .empty)) :
    (Session.create settings program).Holds settings program good I :=
  have H : Holds settings program good I
      ⟨settings, program, .start .empty, [], false, .empty⟩ := ⟨rfl, rfl, by simp, hempty⟩
  H.act (hI.maintains_trace settings _)

variable (hgood : Hereditary good)
include hgood

theorem setUp (hI : Stepwise.Invariant settings good I) (hprogram : ∀ node ∈ program, good node)
    (H : session.Holds settings program good I) :
    session.setUp.Holds settings program good I := by
  rw [Session.setUp]
  split
  · exact H
  · rw [H.settings_eq, H.program_eq]
    have H' := H.act (hI.maintains_setupActions hprogram)
    generalize session.act (setupActions settings program) = outcome at H' ⊢
    obtain ⟨after, result⟩ := outcome
    refine ⟨H'.settings_eq, H'.program_eq, fun process hprocess => ?_, H'.state⟩
    change process ∈ Process.ofProgram after.program at hprocess
    rw [H'.program_eq] at hprocess
    obtain ⟨delay, count, body, hnode, rfl⟩ := Process.exists_of_mem_ofProgram hprocess
    exact hgood.loop (hprogram _ hnode)

theorem advanceAll (hI : Run.Invariant settings good I) (program : List Node)
    {processes : List Process} {state : RunState}
    (hbodies : ∀ process ∈ processes, ∀ node ∈ process.body, good node) (hstate : I state) :
    (∀ process ∈ ((Process.advanceAll settings program processes).run state).1.1,
      ∀ node ∈ process.body, good node) ∧
    I ((Process.advanceAll settings program processes).run state).2 := by
  induction processes generalizing state with
  | nil => exact ⟨nofun, hstate⟩
  | cons process rest ih =>
    obtain ⟨hbody, hrest⟩ := List.forall_mem_cons.mp hbodies
    have hafter := (Stepwise.ensures_advance hI hgood program process hbody).meets state hstate
    rw [Process.run_advanceAll_cons]
    generalize (process.advance settings program).run state = outcome at hafter ⊢
    obtain ⟨result, after⟩ := outcome
    cases result with
    | error stop => exact ⟨hbodies, hafter.2⟩
    | ok moved =>
      obtain ⟨hmoved, hafter⟩ := hafter
      obtain ⟨hothers, hlast⟩ := ih hrest hafter
      refine ⟨List.forall_mem_cons.mpr ⟨?_, hothers⟩, hlast⟩
      rcases hmoved with rfl | rfl <;> exact hbody

variable (hI : Session.Invariant settings good I) (hprogram : ∀ node ∈ program, good node)
include hI hprogram

theorem step (H : session.Holds settings program good I) (inputs : Table String Scalar) :
    (session.step inputs).1.Holds settings program good I := by
  have hsetUp := H.setUp hgood hI.toStepwise hprogram
  have hopened := hsetUp.act (hI.maintains_openTick hgood hsetUp.settings_eq
    (hsetUp.program_eq ▸ hprogram) inputs)
  rw [Session.step]
  dsimp only
  generalize session.setUp.act (session.setUp.openTick inputs) = outcome at hopened ⊢
  obtain ⟨opened, result⟩ := outcome
  cases result with
  | error stop => exact hopened.fail hI.toQuiet stop
  | ok _ =>
    have hafter := advanceAll hgood hI.toInvariant program hopened.bodies hopened.state
    dsimp only
    rw [hopened.settings_eq, hopened.program_eq]
    generalize (Process.advanceAll settings program opened.processes).run opened.state = outcome
      at hafter ⊢
    obtain ⟨⟨processes, active⟩, after⟩ := outcome
    have hsession : ({ opened with
        settings, program, previous := opened.state.world.assignments, processes,
        state := after } : Session).Holds settings program good I := ⟨rfl, rfl, hafter.1, hafter.2⟩
    cases active with
    | error stop => exact hsession.fail hI.toQuiet stop
    | ok active => exact hsession

/-- Every call of a host maintains what the statements of the program maintain. -/
theorem call (H : session.Holds settings program good I) (call : Call) :
    (session.call call).Holds settings program good I := by
  cases call with
  | setUp => exact H.setUp hgood hI.toStepwise hprogram
  | step inputs => exact H.step hgood hI hprogram inputs
  | pressKey key => exact H.act (H.settings_eq ▸ hI.keyMove key)

theorem calls (calls : List Call) (H : session.Holds settings program good I) :
    (calls.foldl Session.call session).Holds settings program good I := by
  induction calls generalizing session with
  | nil => exact H
  | cons call calls ih => exact ih (H.call hgood hI hprogram call)

end Holds

end Session

end TileScript
