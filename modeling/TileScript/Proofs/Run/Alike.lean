import TileScript.Proofs.Run.Invariants

/-!
# Actions that do the same

Runs from start to end and runs tick by tick share most of their statements, but not what they write
about them: conditions are reported in the one and traced in the other, their marks differ, and so
may their listeners. Two actions are alike if they do the same but for what they write. As long as
no key is bound, all conditions are alike too, and with them the blocks that hold neither loops nor
bindings.

## Main definitions

* `Run.Twin`: states that differ in their logs and events only, in worlds without bound keys.
* `Run.Alike`: actions with the same effect on twins.
* `Node.isShared`, `Node.areShared`: the statements and blocks that are alike in both runs.
* `Node.isPreparation`: the statements that may stand before them.

## Main statements

* `Run.alike_block`: a block run from start to end and tick by tick.
* `Run.alike_preparation`: the statements before it.
-/

namespace TileScript

namespace Node

mutual

/-- The statements that mean the same in all runs while no key is bound: those that may stand in
every block, and conditions. -/
def isShared : Node → Bool
  | .define .. | .compute .. | .spawn .. | .despawn .. | .move .. | .wait .. => true
  | .branch _ _ _ _ whenTrue whenFalse => areShared whenTrue && areShared whenFalse
  | _ => false

/-- The blocks of such statements. -/
def areShared : List Node → Bool
  | [] => true
  | node :: rest => node.isShared && areShared rest

end

/-- The statements of a setup that bind no key. -/
def isPreparation : Node → Bool
  | .canvas .. | .spawn .. | .define .. => true
  | _ => false

end Node

namespace Run

variable {α β : Type}

/-! ## Twins -/

/-- States with the same world, in which no key is bound, and the same number of draws taken. -/
structure Twin (state state' : RunState) : Prop where
  world_eq : state.world = state'.world
  drawn_eq : state.drawn = state'.drawn
  unbound : state.world.assignments = .empty

/-- Started in twins, the actions give the same result and twins again. -/
structure Alike (action action' : Run α) : Prop where
  meets : ∀ state state', Twin state state' →
    (action.run state).1 = (action'.run state').1 ∧ Twin (action.run state).2 (action'.run state').2

/-- An action that does nothing but write. -/
structure Silent (action : Run Unit) : Prop where
  run_eq : ∀ state, ∃ log events, action.run state = (.ok (), { state with log, events })

theorem silent_pure : Silent (pure ()) := ⟨fun state => ⟨state.log, state.events, rfl⟩⟩

theorem silent_write (role : LineRole) (text : String) : Silent (write role text) :=
  ⟨fun state => ⟨_, state.events, rfl⟩⟩

theorem silent_logError (settings : Settings) (message : String) :
    Silent (logError settings message) := silent_write _ _

theorem silent_report (settings : Settings) (fault : Fault) : Silent (report settings fault) := by
  rw [report]
  split
  · exact silent_logError settings _
  · exact silent_write _ _

theorem silent_notify (settings : Settings) (name : String) : Silent (notify settings name) := by
  rw [notify]
  split
  · exact silent_pure
  · exact ⟨fun state => ⟨state.log, _, rfl⟩⟩
  · exact silent_write _ _

/-- A line that can be written is traced without further effect. -/
theorem silent_traced (settings : Settings) (line : String) :
    Silent (if settings.debug then write .trace (settings.traceMark ++ " " ++ line)
      else pure ()) := by
  split
  · exact silent_write _ _
  · exact silent_pure

theorem silent_emit {pieces : List Scalar} (h : ∀ piece ∈ pieces, piece.Written) :
    Silent (emit pieces) := by
  obtain ⟨text, htext⟩ := Scalar.exists_line? h
  rw [emit_eq htext]
  exact silent_write _ _

theorem silent_trace (settings : Settings) {pieces : List Scalar}
    (h : ∀ piece ∈ pieces, piece.Written) : Silent (trace settings pieces) := by
  obtain ⟨text, htext⟩ := Scalar.exists_line? h
  rw [trace_eq settings htext]
  exact silent_traced settings text

/-- After a silent action the state is a twin of what it was a twin of. -/
theorem Silent.twin_left {action : Run Unit} (h : Silent action) {state state' : RunState}
    (htwin : Twin state state') :
    (action.run state).1 = .ok () ∧ Twin (action.run state).2 state' := by
  obtain ⟨log, events, hrun⟩ := h.run_eq state
  rw [hrun]
  exact ⟨rfl, htwin.world_eq, htwin.drawn_eq, htwin.unbound⟩

theorem Silent.twin_right {action : Run Unit} (h : Silent action) {state state' : RunState}
    (htwin : Twin state state') :
    (action.run state').1 = .ok () ∧ Twin state (action.run state').2 := by
  obtain ⟨log, events, hrun⟩ := h.run_eq state'
  rw [hrun]
  exact ⟨rfl, htwin.world_eq, htwin.drawn_eq, htwin.unbound⟩

namespace Twin

variable {state state' : RunState}

/-- A report changes nothing but the log, and it stops only by a fault. -/
theorem emit_left (h : Twin state state') (pieces : List Scalar) :
    ∃ result after, (emit pieces).run state = (result, after) ∧ result ≠ .error .endless ∧
      Twin after state' := by
  rw [emit]
  cases Scalar.line pieces with
  | error fault => exact ⟨.error (.fault fault), state, rfl, by simp, h⟩
  | ok line => exact ⟨.ok (), _, rfl, by simp, ((silent_write .report line).twin_left h).2⟩

theorem trace_right (h : Twin state state') (settings : Settings)
    (pieces : List Scalar) : Twin state ((trace settings pieces).run state').2 := by
  rw [trace]
  cases Scalar.line pieces with
  | error fault => exact h
  | ok line => exact ((silent_traced settings line).twin_right h).2

theorem traces_right (h : Twin state state') (settings : Settings)
    (first second : List Scalar) :
    Twin state ((do trace settings first; trace settings second : Run Unit).run state').2 := by
  have hfirst := h.trace_right settings first
  rw [run_bind]
  generalize (trace settings first).run state' = outcome at hfirst ⊢
  obtain ⟨_ | _, after⟩ := outcome
  · exact hfirst
  · exact Twin.trace_right hfirst settings second

/-- What does not run without end is tried without a stop. -/
theorem attempt_left {state after other : RunState} {action : Run Unit}
    {result : Except Stop Unit} (h : Twin after other) (hrun : action.run state = (result, after))
    (hend : result ≠ .error .endless) (settings : Settings) :
    ∃ last, (attempt settings action).run state = (.ok (), last) ∧ Twin last other := by
  rw [attempt, run_tryCatch, hrun]
  cases result with
  | ok a => exact ⟨after, rfl, h⟩
  | error stop =>
    cases stop with
    | endless => exact absurd rfl hend
    | fault fault =>
      obtain ⟨hresult, htwin⟩ := (silent_report settings fault).twin_left h
      exact ⟨_, Prod.ext hresult rfl, htwin⟩

end Twin

/-! ## Actions that are alike -/

namespace Alike

theorem pure (a : α) : Alike (pure a : Run α) (pure a) := ⟨fun _ _ h => ⟨rfl, h⟩⟩

theorem throw (stop : Stop) : Alike (throw stop : Run α) (throw stop) := ⟨fun _ _ h => ⟨rfl, h⟩⟩

theorem bind {action action' : Run α} {next next' : α → Run β} (h : Alike action action')
    (hnext : ∀ a, Alike (next a) (next' a)) : Alike (action >>= next) (action' >>= next') := by
  refine ⟨fun state state' htwin => ?_⟩
  obtain ⟨hresult, htwin⟩ := h.meets state state' htwin
  rw [run_bind, run_bind]
  generalize action.run state = outcome at hresult htwin ⊢
  generalize action'.run state' = outcome' at hresult htwin ⊢
  obtain ⟨result, after⟩ := outcome
  obtain ⟨result', after'⟩ := outcome'
  obtain rfl : result = result' := hresult
  cases result with
  | ok a => exact (hnext a).meets after after' htwin
  | error stop => exact ⟨rfl, htwin⟩

theorem get_bind {next next' : RunState → Run α}
    (h : ∀ state state', Twin state state' → Alike (next state) (next' state')) :
    Alike (get >>= next) (get >>= next') :=
  ⟨fun state state' htwin => (h state state' htwin).meets state state' htwin⟩

theorem ite {condition : Prop} [Decidable condition] {yes yes' no no' : Run α}
    (hyes : Alike yes yes') (hno : Alike no no') :
    Alike (if condition then yes else no) (if condition then yes' else no') := by
  split
  · exact hyes
  · exact hno

theorem ofExcept (result : Except Fault α) : Alike (Run.ofExcept result) (Run.ofExcept result) := by
  cases result with
  | ok a => exact pure a
  | error fault => exact throw _

theorem of_silent {action action' : Run Unit} (h : Silent action) (h' : Silent action') :
    Alike action action' := by
  refine ⟨fun state state' htwin => ?_⟩
  obtain ⟨hresult, htwin⟩ := h.twin_left htwin
  obtain ⟨hresult', htwin⟩ := h'.twin_right htwin
  exact ⟨hresult.trans hresult'.symm, htwin⟩

theorem emit (pieces : List Scalar) : Alike (Run.emit pieces) (Run.emit pieces) :=
  bind (ofExcept _) fun _ => of_silent (silent_write _ _) (silent_write _ _)

/-- The same line may be reported in one run and traced in the other. -/
theorem emit_trace (settings : Settings) (pieces : List Scalar) :
    Alike (Run.emit pieces) (trace settings pieces) :=
  bind (ofExcept _) fun line => of_silent (silent_write _ _) (silent_traced settings line)

theorem notify (settings settings' : Settings) (name : String) :
    Alike (Run.notify settings name) (Run.notify settings' name) :=
  of_silent (silent_notify settings name) (silent_notify settings' name)

theorem change {operation : World → Outcome α} (edit : World.Edit)
    (h : ∀ world, (operation world).1 = world.edit edit) :
    Alike (Run.change operation) (Run.change operation) := by
  refine ⟨fun state state' htwin => ?_⟩
  rw [run_change, run_change, ← htwin.world_eq]
  refine ⟨rfl, rfl, htwin.drawn_eq, ?_⟩
  change (operation state.world).1.assignments = .empty
  rw [h, (World.bindings_edit state.world edit).2]
  exact htwin.unbound

theorem setVariable (name : String) (value : Scalar) :
    Alike (Run.setVariable name value) (Run.setVariable name value) := by
  refine ⟨fun state state' htwin => ⟨rfl, ?_, htwin.drawn_eq, htwin.unbound⟩⟩
  change { state.world with vars := state.world.vars.insert name value } =
    { state'.world with vars := state'.world.vars.insert name value }
  rw [htwin.world_eq]

theorem recordOf (id : Scalar) : Alike (Run.recordOf id) (Run.recordOf id) := by
  refine get_bind fun state state' htwin => ?_
  rw [htwin.world_eq]
  split
  · exact pure _
  · exact throw _

/-- If one of them does not stop, neither does the other. -/
theorem exists_run {action action' : Run Unit} (h : Alike action action')
    (hcompletes : Completes (fun _ => True) action') {state state' : RunState}
    (htwin : Twin state state') :
    ∃ after after', action.run state = (.ok (), after) ∧ action'.run state' = (.ok (), after') ∧
      Twin after after' := by
  obtain ⟨hresult, htwin⟩ := h.meets state state' htwin
  obtain ⟨_, after', hrun', -⟩ := Ensures.exists_run hcompletes state' trivial
  rw [hrun'] at hresult htwin
  generalize action.run state = outcome at hresult htwin ⊢
  obtain ⟨result, after⟩ := outcome
  obtain rfl : result = .ok () := hresult
  exact ⟨after, after', rfl, hrun', htwin⟩

/-- Faults are logged in both runs. -/
theorem attempt (settings settings' : Settings) {action action' : Run Unit}
    (h : Alike action action') :
    Alike (Run.attempt settings action) (Run.attempt settings' action') := by
  refine ⟨fun state state' htwin => ?_⟩
  obtain ⟨hresult, htwin⟩ := h.meets state state' htwin
  rw [Run.attempt, Run.attempt, run_tryCatch, run_tryCatch]
  generalize action.run state = outcome at hresult htwin ⊢
  generalize action'.run state' = outcome' at hresult htwin ⊢
  obtain ⟨result, after⟩ := outcome
  obtain ⟨result', after'⟩ := outcome'
  obtain rfl : result = result' := hresult
  cases result with
  | ok a => exact ⟨rfl, htwin⟩
  | error stop =>
    cases stop with
    | endless => exact ⟨rfl, htwin⟩
    | fault fault =>
      have hreport : Alike (report settings fault) (report settings' fault) :=
        of_silent (silent_report settings fault) (silent_report settings' fault)
      exact hreport.meets after after' htwin

end Alike

/-! ## Statements -/

theorem alike_canvas (settings settings' : Settings) (width height : Scalar) :
    Alike (canvas settings width height) (canvas settings' width height) := by
  refine .bind (.change (.resize width height) fun _ => rfl) fun dropped => ?_
  refine .bind (.emit _) fun _ => ?_
  split
  · exact .notify settings settings' _
  · exact .bind (.emit _) fun _ => .notify settings settings' _

theorem alike_wait (duration : Scalar) : Alike (wait duration) (wait duration) :=
  .bind (.ofExcept _) fun _ => .ite (.emit _) (.throw _)

theorem truthy_of_isName {name : String} (h : isName name = true) :
    (Scalar.text name).truthy = true := by
  have hne : name ≠ "" := by
    rintro rfl
    exact absurd h (by decide)
  simpa [Scalar.truthy] using hne

section

variable {settings settings' : Settings} (hdraw : settings.draw = settings'.draw)
include hdraw

/-- The value of an expression depends on the world and on the draws that are left. -/
theorem alike_value (node : Node) : Alike (value settings node) (value settings' node) := by
  refine ⟨fun state state' htwin => ?_⟩
  have hevaluation : evaluation settings node state = evaluation settings' node state' := by
    rw [evaluation, evaluation, hdraw, htwin.world_eq, htwin.drawn_eq]
  rw [run_value, run_value, valueOf, valueOf, evaluated, evaluated, hevaluation]
  exact ⟨rfl, htwin.world_eq, rfl, htwin.unbound⟩

theorem alike_optionalValue (node : Node) :
    Alike (optionalValue settings node) (optionalValue settings' node) :=
  .ite (.pure _) (alike_value hdraw node)

theorem alike_define (name : String) (node : Node) :
    Alike (define settings name node) (define settings' name node) :=
  .bind (alike_value hdraw node) fun _ => .bind (.setVariable _ _) fun _ => .emit _

theorem alike_compute (node : Node) : Alike (compute settings node) (compute settings' node) :=
  .bind (alike_value hdraw node) fun _ => .emit _

theorem alike_spawn (id x y objectState : Node) :
    Alike (spawn settings id x y objectState) (spawn settings' id x y objectState) := by
  refine .bind (alike_value hdraw id) fun id => .bind (alike_value hdraw x) fun x => ?_
  refine .bind (alike_value hdraw y) fun y => .bind (alike_value hdraw objectState) fun state => ?_
  refine .bind (.change (.spawn id x y state) fun _ => rfl) fun evicted => ?_
  refine .bind (.recordOf id) fun object => ?_
  split
  · exact .bind (.emit _) fun _ => .notify settings settings' _
  · exact .bind (.emit _) fun _ => .bind (.emit _) fun _ => .notify settings settings' _

theorem alike_despawn (id : Node) : Alike (despawn settings id) (despawn settings' id) := by
  refine .bind (alike_value hdraw id) fun id => ?_
  refine .bind (.change (.despawn id) fun _ => rfl) fun _ => ?_
  exact .bind (.emit _) fun _ => .notify settings settings' _

theorem alike_move (id x y : Node) (direction : Scalar) (objectState : Node) (swap : Scalar) :
    Alike (move settings id x y direction objectState swap)
      (move settings' id x y direction objectState swap) := by
  refine .bind (alike_value hdraw id) fun id => .bind (alike_optionalValue hdraw x) fun x => ?_
  refine .bind (alike_optionalValue hdraw y) fun y => ?_
  refine .bind (alike_optionalValue hdraw objectState) fun state => ?_
  refine .bind (.change (.move id direction x y state swap) fun _ => rfl) fun _ => ?_
  exact .bind (.recordOf id) fun _ => .bind (.emit _) fun _ => .notify settings settings' _

theorem alike_spatialCondition (left relation : Scalar) (right : Node) :
    Alike (spatialCondition settings left relation right)
      (spatialCondition settings' left relation right) := by
  refine .bind (alike_value hdraw right) fun right => .get_bind fun state state' htwin => ?_
  rw [htwin.world_eq]
  split
  · exact .pure _
  · exact .ite (.bind (.of_silent (silent_logError settings _) (silent_logError settings' _))
      fun _ => .pure _) (.throw _)

/-- While no key is bound, a condition on a key holds in neither run. -/
theorem alike_condition (program : List Node) (left : Node) {relation key : Scalar} {right : Node}
    (h : Node.isCondition relation right key = true) :
    Alike (Batch.condition settings left relation right key)
      (Stepwise.condition settings' program left relation right key) := by
  rw [Batch.condition, Stepwise.condition]
  refine .bind (alike_value hdraw left) fun left => ?_
  rcases Node.cases_of_isCondition h with ⟨name, rfl, -, rfl, hname⟩ | ⟨name, hname, rfl, -, -⟩
  · have hassigned : (Scalar.text "assigned").same "assigned" = true := by decide
    rw [if_pos hassigned, if_pos hassigned]
    dsimp only
    rw [if_pos (truthy_of_isName hname), Stepwise.heldFor, bind_assoc]
    refine .get_bind fun state state' htwin => ?_
    have hget : state.world.assignments.get? name = none := by rw [htwin.unbound]; rfl
    have hget' : state'.world.assignments.get? name = none := htwin.world_eq ▸ hget
    rw [hget, hget']
    exact .pure _
  · have hspatial : (Scalar.text name).same "assigned" = false := by
      clear h
      revert name
      decide
    rw [hspatial]
    exact .bind (alike_spatialCondition hdraw left (.text name) right) fun _ => .pure _

/-- A condition is reported in a run from start to end, and traced in a run tick by tick. -/
theorem alike_branch (program : List Node) (left : Node) {relation key : Scalar} {right : Node}
    (h : Node.isCondition relation right key = true) {yes yes' no no' : Run Unit}
    (hyes : Alike yes yes') (hno : Alike no no') :
    Alike (Batch.branch settings left relation right key yes no)
      (Stepwise.branch settings' program left relation right key yes' no') := by
  rw [Batch.branch, Stepwise.branch]
  exact .bind (alike_condition hdraw program left h) fun _ =>
    .bind (.emit_trace settings' _) fun _ => .ite hyes hno

end

variable {settings settings' : Settings} (options : BatchOptions)
  (jump : String → Scalar → Run Unit) (program : List Node)

mutual

theorem alike_statement (hdraw : settings.draw = settings'.draw) (node : Node)
    (hnode : node.isStatement = true) (hshared : node.isShared = true) :
    Alike (Batch.statement settings options jump node)
      (Stepwise.statement settings' program node) := by
  cases node with
  | branch left relation right key whenTrue whenFalse =>
    simp only [Node.isStatement, Bool.and_eq_true] at hnode
    simp only [Node.isShared, Bool.and_eq_true] at hshared
    obtain ⟨⟨⟨-, hcondition⟩, htrue⟩, hfalse⟩ := hnode
    rw [Batch.statement, Stepwise.statement]
    exact .attempt _ _ (alike_branch hdraw program left hcondition
      (alike_block hdraw whenTrue (fun _ => Node.isStatement_of_mem htrue) hshared.1)
      (alike_block hdraw whenFalse (fun _ => Node.isStatement_of_mem hfalse) hshared.2))
  | define name value => exact .attempt _ _ (alike_define hdraw name value)
  | compute expr => exact .attempt _ _ (alike_compute hdraw expr)
  | spawn id x y state => exact .attempt _ _ (alike_spawn hdraw id x y state)
  | despawn id => exact .attempt _ _ (alike_despawn hdraw id)
  | move id x y direction state swap =>
    exact .attempt _ _ (alike_move hdraw id x y direction state swap)
  | wait duration => exact .attempt _ _ (alike_wait duration)
  | _ => cases hshared

/-- A block that holds neither loops nor bindings does the same in both runs. -/
theorem alike_block (hdraw : settings.draw = settings'.draw) (nodes : List Node)
    (hnodes : ∀ node ∈ nodes, node.isStatement = true) (hshared : Node.areShared nodes = true) :
    Alike (Batch.block settings options jump nodes) (Stepwise.block settings' program nodes) := by
  cases nodes with
  | nil =>
    rw [Batch.block, Stepwise.block]
    exact .pure ()
  | cons node rest =>
    rw [Node.areShared, Bool.and_eq_true] at hshared
    obtain ⟨hnode, hrest⟩ := List.forall_mem_cons.mp hnodes
    rw [Batch.block, Stepwise.block]
    exact .bind (alike_statement hdraw node hnode hshared.1) fun _ =>
      alike_block hdraw rest hrest hshared.2

end

/-- The statements of a setup that bind no key do the same in both runs. -/
theorem alike_preparation (hdraw : settings.draw = settings'.draw) (nodes : List Node)
    (h : ∀ node ∈ nodes, node.isPreparation = true) :
    Alike (Batch.block settings options jump nodes)
      (nodes.forM (Stepwise.setupStatement settings')) := by
  induction nodes with
  | nil =>
    rw [Batch.block]
    exact .pure ()
  | cons node rest ih =>
    obtain ⟨hnode, hrest⟩ := List.forall_mem_cons.mp h
    rw [Batch.block]
    refine .bind ?_ fun _ => ih hrest
    cases node with
    | canvas width height => exact .attempt _ _ (alike_canvas settings settings' width height)
    | spawn id x y state => exact .attempt _ _ (alike_spawn hdraw id x y state)
    | define name value => exact .attempt _ _ (alike_define hdraw name value)
    | _ => cases hnode

end Run

end TileScript
