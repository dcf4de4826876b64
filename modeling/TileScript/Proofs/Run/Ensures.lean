import TileScript.Proofs.Evaluation
import TileScript.Run.Statement

/-!
# What actions of runs ensure

An action of a run goes from a state to a result and a state, or it stops in a state. What holds
after it is said by a triple: given a property of the states in which the action starts, one of its
result and the state after it, and one of the states in which it stops.

Most triples are about one property of states that an action maintains. Lines of the log and draws
matter to few such properties, so that evaluating, which only writes lines and takes draws,
maintains all the others. A run that has no end is a stop of its own, which only loops without a
limit bring about; a property of runs says in which case it may occur.

## Main definitions

* `Run.evaluation`: what evaluating an expression in a state gives.
* `Run.Ensures`: triples.
* `Run.Maintains`: an action maintains a property of states, also if it stops.
* `Run.Completes`: an action maintains a property of states and does not stop.
* `Run.Quiet`: properties of states that lines and draws leave alone.

## Main statements

* `Run.run_value`: the exact effect of evaluating an expression.
* `Run.Maintains.attempt`: trying an action stops only if it has no end.
-/

namespace TileScript.Run

variable {α β : Type}

/-! ## Single actions -/

/-- A handler takes over where an action stopped. -/
theorem run_tryCatch (action : Run α) (handler : Stop → Run α) (state : RunState) :
    (tryCatch action handler).run state =
      match action.run state with
      | (.ok a, after) => (.ok a, after)
      | (.error stop, after) => (handler stop).run after := by
  change (ExceptT.tryCatch action handler).run state = _
  simp only [ExceptT.tryCatch, ExceptT.run, ExceptT.mk, Bind.bind, StateT.bind]
  cases action state with
  | mk result after => cases result <;> rfl

theorem run_forM_cons (a : α) (list : List α) (action : α → Run Unit) (state : RunState) :
    ((a :: list).forM action).run state =
      match (action a).run state with
      | (.ok _, after) => (list.forM action).run after
      | (.error stop, after) => (.error stop, after) := by
  change (action a >>= fun _ => list.forM action).run state = _
  rw [run_bind]
  obtain ⟨_ | _, after⟩ := (action a).run state <;> rfl

@[simp] theorem run_pure (a : α) (state : RunState) :
    (pure a : Run α).run state = (.ok a, state) := rfl

@[simp] theorem run_get_bind (next : RunState → Run β) (state : RunState) :
    (get >>= next).run state = (next state).run state := rfl

@[simp] theorem run_set (after state : RunState) :
    (set after : Run Unit).run state = (.ok (), after) := rfl

@[simp] theorem run_modify (change : RunState → RunState) (state : RunState) :
    (modify change : Run Unit).run state = (.ok (), change state) := rfl

@[simp] theorem run_write (role : LineRole) (text : String) (state : RunState) :
    (write role text).run state = (.ok (), state.write role text) := rfl

@[simp] theorem run_logError (settings : Settings) (message : String) (state : RunState) :
    (logError settings message).run state =
      (.ok (), state.write .fault (settings.faultMark ++ " " ++ message)) := rfl

/-- A line that can be written is reported. -/
theorem emit_eq {pieces : List Scalar} {text : String} (h : Scalar.line? pieces = some text) :
    emit pieces = write .report text := by
  rw [emit, Scalar.line, h]
  rfl

/-- A line that can be written is traced if tracing is on. -/
theorem trace_eq (settings : Settings) {pieces : List Scalar} {text : String}
    (h : Scalar.line? pieces = some text) :
    trace settings pieces =
      if settings.debug then write .trace (settings.traceMark ++ " " ++ text) else pure () := by
  rw [trace, Scalar.line, h]
  rfl

/-- A change of the world goes on with its result, or stops by its fault. -/
theorem run_change (operation : World → Outcome α) (state : RunState) :
    (change operation).run state =
      (match (operation state.world).2 with
        | .ok a => .ok a
        | .error fault => .error (.fault fault),
      { state with world := (operation state.world).1 }) := by
  rw [change, run_get_bind]
  dsimp only
  rw [run_bind, run_set]
  cases (operation state.world).2 <;> rfl

/-! ## Evaluating -/

/-- What evaluating an expression in a state gives. -/
def evaluation (settings : Settings) (node : Node) (state : RunState) :
    Except Fault Scalar × EvalState :=
  (evaluate ⟨state.world.vars, settings.draw⟩ 0 node).run ⟨#[], state.drawn⟩

/-- The value that evaluating an expression in a state gives; zero for a fault. -/
def valueOf (settings : Settings) (node : Node) (state : RunState) : Scalar :=
  (evaluation settings node state).1.toOption.getD (.int 0)

/-- The value of an expression of the grammar can be written. -/
theorem written_valueOf (settings : Settings) {node : Node} (h : node.isExpression = true)
    (state : RunState) : (valueOf settings node state).Written := by
  rw [valueOf]
  cases hrun : evaluation settings node state with
  | mk result after =>
    cases result with
    | ok value => exact gives_written_evaluate _ _ h _ _ _ hrun
    | error fault => exact Scalar.written_zero

/-- The lines that evaluating an expression adds to the log: its trace if tracing is on, and its
fault if there is one. -/
def evaluationLines (settings : Settings) : Except Fault Scalar × EvalState → Array LogLine
  | (result, after) =>
    (if settings.debug then
      after.trace.map fun line => ⟨.trace, settings.traceMark ++ " " ++ line⟩ else #[]) ++
    match result with
    | .ok _ => #[]
    | .error fault =>
      #[⟨.fault, settings.faultMark ++ " " ++ ("Error evaluating value: " ++ fault.message)⟩]

/-- The state after evaluating an expression. -/
def evaluated (settings : Settings) (node : Node) (state : RunState) : RunState :=
  { state with
    log := state.log ++ evaluationLines settings (evaluation settings node state)
    drawn := (evaluation settings node state).2.drawn }

/-- Writing lines one after the other. -/
theorem foldl_write (role : LineRole) (text : String → String) (lines : Array String)
    (state : RunState) :
    lines.foldl (fun state line => state.write role (text line)) state =
      { state with log := state.log ++ lines.map fun line => ⟨role, text line⟩ } := by
  obtain ⟨lines⟩ := lines
  induction lines generalizing state with
  | nil => simp
  | cons line lines ih => simpa [RunState.write] using ih (state.write role (text line))

/-- Evaluating an expression always gives a value. It adds lines to the log and takes draws, and
changes nothing else. -/
theorem run_value (settings : Settings) (node : Node) (state : RunState) :
    (value settings node).run state =
      (.ok (valueOf settings node state), evaluated settings node state) := by
  rw [value, run_get_bind]
  simp only [valueOf, evaluated, evaluation]
  generalize (evaluate ⟨state.world.vars, settings.draw⟩ 0 node).run ⟨#[], state.drawn⟩ = outcome
  obtain ⟨result, after⟩ := outcome
  dsimp only
  rw [run_bind, run_set]
  cases hdebug : settings.debug <;> cases result <;>
    simp only [run_bind, run_modify, run_pure, run_logError, evaluationLines, hdebug, foldl_write,
      if_true, if_false, Bool.false_eq_true] <;>
    simp [RunState.write, Except.toOption]

/-! ## Triples -/

/-- The result and the state of an action satisfy `post`, or its stop and the state `halt`. -/
def Meets (post : α → RunState → Prop) (halt : Stop → RunState → Prop) :
    Except Stop α × RunState → Prop
  | (.ok a, after) => post a after
  | (.error stop, after) => halt stop after

/-- Started in a state with `pre`, the action gives a result and a state with `post`, or it stops in
a state with `halt`. -/
structure Ensures (pre : RunState → Prop) (action : Run α) (post : α → RunState → Prop)
    (halt : Stop → RunState → Prop) : Prop where
  meets : ∀ state, pre state → Meets post halt (action.run state)

namespace Ensures

variable {pre pre' : RunState → Prop} {post post' : α → RunState → Prop}
  {halt halt' : Stop → RunState → Prop} {action : Run α}

theorem mono (h : Ensures pre action post halt) (hpre : ∀ state, pre' state → pre state)
    (hpost : ∀ a state, post a state → post' a state)
    (hhalt : ∀ stop state, halt stop state → halt' stop state) :
    Ensures pre' action post' halt' := by
  refine ⟨fun state hstate => ?_⟩
  have hafter := h.meets state (hpre state hstate)
  cases hrun : action.run state with
  | mk result after =>
    rw [hrun] at hafter
    cases result with
    | ok a => exact hpost a after hafter
    | error stop => exact hhalt stop after hafter

theorem pure {a : α} (h : ∀ state, pre state → post a state) :
    Ensures pre (pure a : Run α) post halt := ⟨h⟩

theorem throw {stop : Stop} (h : ∀ state, pre state → halt stop state) :
    Ensures pre (throw stop : Run α) post halt := ⟨h⟩

theorem bind {next : α → Run β} {last : β → RunState → Prop} (h : Ensures pre action post halt)
    (hnext : ∀ a, Ensures (post a) (next a) last halt) :
    Ensures pre (action >>= next) last halt := by
  refine ⟨fun state hstate => ?_⟩
  have hafter := h.meets state hstate
  rw [run_bind]
  cases hrun : action.run state with
  | mk result after =>
    rw [hrun] at hafter
    cases result with
    | ok a => exact (hnext a).meets after hafter
    | error stop => exact hafter

theorem tryCatch {handler : Stop → Run α} (h : Ensures pre action post halt)
    (hhandler : ∀ stop, Ensures (halt stop) (handler stop) post halt') :
    Ensures pre (tryCatch action handler) post halt' := by
  refine ⟨fun state hstate => ?_⟩
  have hafter := h.meets state hstate
  rw [run_tryCatch]
  cases hrun : action.run state with
  | mk result after =>
    rw [hrun] at hafter
    cases result with
    | ok a => exact hafter
    | error stop => exact (hhandler stop).meets after hafter

/-- What does not depend on the state may be taken out of the precondition. -/
theorem of_imp {p : Prop} (h : p → Ensures pre action post halt) :
    Ensures (fun state => p ∧ pre state) action post halt :=
  ⟨fun state hstate => (h hstate.1).meets state hstate.2⟩

theorem of_run_eq_ok (h : Ensures pre action post halt) {state after : RunState} {a : α}
    (hstate : pre state) (hrun : action.run state = (.ok a, after)) : post a after := by
  have hafter := h.meets state hstate
  rwa [hrun] at hafter

/-- An action that cannot stop has a result. -/
theorem exists_run (h : Ensures pre action post fun _ _ => False) (state : RunState)
    (hstate : pre state) : ∃ a after, action.run state = (.ok a, after) ∧ post a after := by
  have hafter := h.meets state hstate
  cases hrun : action.run state with
  | mk result after =>
    rw [hrun] at hafter
    cases result with
    | ok a => exact ⟨a, after, rfl, hafter⟩
    | error stop => exact hafter.elim

theorem value_bind {settings : Settings} {node : Node} {next : Scalar → Run α}
    (h : ∀ found, pre found →
      Ensures (· = evaluated settings node found) (next (valueOf settings node found)) post halt) :
    Ensures pre (value settings node >>= next) post halt := by
  refine ⟨fun state hstate => ?_⟩
  rw [run_bind, run_value]
  exact (h state hstate).meets _ rfl

end Ensures

/-! ## Maintained properties -/

variable {E : Prop} {I : RunState → Prop}

/-- The action maintains the property, also if it stops. Only if `E` may it have no end. -/
def Maintains (E : Prop) (I : RunState → Prop) (action : Run α) : Prop :=
  Ensures I action (fun _ => I) fun stop state => (stop = .endless → E) ∧ I state

/-- The action maintains the property and does not stop. -/
def Completes (I : RunState → Prop) (action : Run α) : Prop :=
  Ensures I action (fun _ => I) fun _ _ => False

theorem Completes.maintains {action : Run α} (h : Completes I action) : Maintains E I action :=
  h.mono (fun _ hstate => hstate) (fun _ _ hstate => hstate) fun _ _ hstop => hstop.elim

namespace Maintains

/-- Whether or not the action stops, the state after it has the property. -/
theorem state_run {action : Run α} (h : Maintains E I action) {state : RunState}
    (hstate : I state) : I (action.run state).2 := by
  have hafter := h.meets state hstate
  cases hrun : action.run state with
  | mk result after =>
    rw [hrun] at hafter
    cases result with
    | ok a => exact hafter
    | error stop => exact hafter.2

theorem pure (a : α) : Maintains E I (pure a : Run α) := ⟨fun _ h => h⟩

theorem throw (fault : Fault) : Maintains E I (throw (.fault fault) : Run α) :=
  ⟨fun _ h => ⟨nofun, h⟩⟩

theorem bind {action : Run α} {next : α → Run β} (h : Maintains E I action)
    (hnext : ∀ a, Maintains E I (next a)) : Maintains E I (action >>= next) := Ensures.bind h hnext

theorem get_bind {next : RunState → Run β} (h : ∀ state, Maintains E I (next state)) :
    Maintains E I (get >>= next) := ⟨fun state => (h state).meets state⟩

theorem modify {change : RunState → RunState} (h : ∀ state, I state → I (change state)) :
    Maintains E I (modify change : Run Unit) := ⟨h⟩

theorem ofExcept (result : Except Fault α) : Maintains E I (Run.ofExcept result) := by
  cases result with
  | ok a => exact pure a
  | error fault => exact throw fault

theorem ite {condition : Prop} [Decidable condition] {yes no : Run α} (hyes : Maintains E I yes)
    (hno : Maintains E I no) : Maintains E I (if condition then yes else no) := by
  split
  · exact hyes
  · exact hno

theorem forM {list : List α} {action : α → Run Unit} (h : ∀ a ∈ list, Maintains E I (action a)) :
    Maintains E I (list.forM action) := by
  induction list with
  | nil => exact pure ()
  | cons a list ih =>
    exact bind (h a List.mem_cons_self) fun _ => ih fun b hb => h b (List.mem_cons_of_mem a hb)

theorem iterate {action : ℕ → Run Unit} (h : ∀ index, Maintains E I (action index))
    (start times : ℕ) : Maintains E I (Run.iterate action start times) := by
  induction times generalizing start with
  | zero => exact pure ()
  | succ times ih => exact bind (h start) fun _ => ih (start + 1)

end Maintains

namespace Completes

theorem pure (a : α) : Completes I (pure a : Run α) := ⟨fun _ h => h⟩

theorem bind {action : Run α} {next : α → Run β} (h : Completes I action)
    (hnext : ∀ a, Completes I (next a)) : Completes I (action >>= next) := Ensures.bind h hnext

theorem get_bind {next : RunState → Run β} (h : ∀ state, Completes I (next state)) :
    Completes I (get >>= next) := ⟨fun state => (h state).meets state⟩

theorem forM {list : List α} {action : α → Run Unit} (h : ∀ a ∈ list, Completes I (action a)) :
    Completes I (list.forM action) := by
  induction list with
  | nil => exact pure ()
  | cons a list ih =>
    exact bind (h a List.mem_cons_self) fun _ => ih fun b hb => h b (List.mem_cons_of_mem a hb)

theorem mapM {list : List α} {action : α → Run β} (h : ∀ a, Completes I (action a)) :
    Completes I (list.mapM action) := by
  induction list with
  | nil => exact pure []
  | cons a list ih =>
    rw [List.mapM_cons]
    exact bind (h a) fun _ => bind ih fun _ => pure _

end Completes

/-! ## Lines and draws -/

/-- A property of states that lines of the log and draws leave alone. -/
structure Quiet (I : RunState → Prop) : Prop where
  write : ∀ {state : RunState} (role : LineRole) (text : String),
    I state → I (state.write role text)
  drawn : ∀ {state : RunState} (drawn : ℕ), I state → I { state with drawn }

namespace Quiet

variable (hI : Quiet I)
include hI

theorem lines {state : RunState} (h : I state) (lines : Array LogLine) :
    I { state with log := state.log ++ lines } := by
  obtain ⟨lines⟩ := lines
  induction lines generalizing state with
  | nil => simpa using h
  | cons line lines ih => simpa [RunState.write] using ih (hI.write line.role line.text h)

theorem evaluated {state : RunState} (h : I state) (settings : Settings) (node : Node) :
    I (evaluated settings node state) :=
  hI.lines (hI.drawn (evaluation settings node state).2.drawn h)
    (evaluationLines settings (evaluation settings node state))

theorem completes_write (role : LineRole) (text : String) : Completes I (Run.write role text) :=
  ⟨fun _ => hI.write role text⟩

theorem completes_logError (settings : Settings) (message : String) :
    Completes I (logError settings message) := hI.completes_write _ _

theorem completes_report (settings : Settings) (fault : Fault) :
    Completes I (report settings fault) := by
  rw [report]
  split
  · exact hI.completes_logError settings _
  · exact hI.completes_write _ _

theorem maintains_emit (pieces : List Scalar) : Maintains E I (emit pieces) :=
  .bind (.ofExcept _) fun _ => (hI.completes_write _ _).maintains

theorem maintains_trace (settings : Settings) (pieces : List Scalar) :
    Maintains E I (trace settings pieces) :=
  .bind (.ofExcept _) fun _ => .ite (hI.completes_write _ _).maintains (.pure _)

/-- A line that can be written does not stop. -/
theorem completes_emit {pieces : List Scalar} (h : ∀ piece ∈ pieces, piece.Written) :
    Completes I (emit pieces) := by
  obtain ⟨text, htext⟩ := Scalar.exists_line? h
  rw [emit_eq htext]
  exact hI.completes_write _ _

theorem completes_trace (settings : Settings) {pieces : List Scalar}
    (h : ∀ piece ∈ pieces, piece.Written) : Completes I (trace settings pieces) := by
  obtain ⟨text, htext⟩ := Scalar.exists_line? h
  rw [trace_eq settings htext]
  split
  · exact hI.completes_write _ _
  · exact .pure _

theorem completes_value (settings : Settings) (node : Node) :
    Completes I (value settings node) := by
  refine ⟨fun state hstate => ?_⟩
  rw [run_value]
  exact hI.evaluated hstate settings node

/-- Evaluating an expression of the grammar gives a value that can be written. -/
theorem ensures_value (settings : Settings) {node : Node} (h : node.isExpression = true) :
    Ensures I (value settings node) (fun value state => value.Written ∧ I state)
      fun _ _ => False := by
  refine ⟨fun state hstate => ?_⟩
  rw [run_value]
  exact ⟨written_valueOf settings h state, hI.evaluated hstate settings node⟩

theorem ensures_optionalValue (settings : Settings) {node : Node} (h : node.isOptional = true) :
    Ensures I (optionalValue settings node) (fun value state => value.Written ∧ I state)
      fun _ _ => False := by
  rw [optionalValue]
  split
  · exact .pure fun _ hstate => ⟨Scalar.written_null, hstate⟩
  · next hpresent => exact hI.ensures_value settings (by simpa [Node.isOptional, hpresent] using h)

theorem completes_optionalValue (settings : Settings) (node : Node) :
    Completes I (optionalValue settings node) := by
  rw [optionalValue]
  split
  · exact .pure _
  · exact hI.completes_value settings node

/-- An action that is tried stops only if it has no end. -/
theorem attempt (settings : Settings) {action : Run Unit} (h : Maintains E I action) :
    Ensures I (attempt settings action) (fun _ => I)
      fun stop state => stop = .endless ∧ E ∧ I state := by
  refine Ensures.tryCatch h fun stop => ?_
  cases stop with
  | fault fault =>
    exact (hI.completes_report settings fault).mono (fun _ h => h.2) (fun _ _ h => h)
      fun _ _ h => h.elim
  | endless => exact .throw fun _ h => ⟨rfl, h.1 rfl, h.2⟩

theorem maintains_attempt (settings : Settings) {action : Run Unit} (h : Maintains E I action) :
    Maintains E I (Run.attempt settings action) :=
  (hI.attempt settings h).mono (fun _ h => h) (fun _ _ h => h) fun _ _ h => ⟨fun _ => h.2.1, h.2.2⟩

theorem completes_attempt (settings : Settings) {action : Run Unit} (h : Maintains False I action) :
    Completes I (Run.attempt settings action) :=
  (hI.attempt settings h).mono (fun _ h => h) (fun _ _ h => h) fun _ _ h => h.2.1

theorem maintains_spatialCondition (settings : Settings) (left relation : Scalar) (right : Node) :
    Maintains E I (spatialCondition settings left relation right) := by
  refine .bind (hI.completes_value settings right).maintains fun right => .get_bind fun state => ?_
  split
  · exact .pure _
  · exact .ite (.bind (hI.completes_logError settings _).maintains fun _ => .pure _) (.throw _)

end Quiet

end TileScript.Run
