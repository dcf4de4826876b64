import TileScript.Proofs.Program.RoundTrip
import TileScript.Proofs.Run.Keeps

/-!
# Listeners are told of every change

A statement that changes the board tells the listener at its very end, after it has written its
lines. A line that could not be written in between would hide the change. This does not happen to
programs that come from texts: a change that fails has changed nothing, and all that stands in the
lines after a change can be written.

## Main definitions

* `Event.Shows`: an event tells of the canvas, the board and the objects of a world.
* `RunState.Current`: the last event shows the world as it is.

## Main statements

* `current_of_parseSource`: what a listener was told last is how the world is, after every run from
  start to end and after every call of a host.
-/

namespace TileScript

open Run

/-- The event tells of the canvas, the board and the objects of the world. -/
structure Event.Shows (event : Event) (world : World) : Prop where
  canvas : event.canvas = world.canvas
  board : event.board = world.board
  objects : event.objects = world.objects

namespace RunState

/-- The output of every event is the beginning of the output. -/
def Grown (state : RunState) : Prop :=
  ∀ event ∈ state.events, ∃ rest, state.output = event.output ++ rest

/-- The last event shows the world as it is; if there is none, then the canvas, the board and the
objects are still those of the empty world. The output of every event is the beginning of the
output. -/
structure Current (state : RunState) : Prop where
  told : (∃ event, state.events.back? = some event ∧ event.Shows state.world) ∨
    state.events = #[] ∧ state.world.canvas = World.empty.canvas ∧
      state.world.board = World.empty.board ∧ state.world.objects = World.empty.objects
  grown : state.Grown

theorem output_write (state : RunState) (role : LineRole) (text : String) :
    (state.write role text).output = state.output ++ (text ++ "\n") := by
  simp [output, write, String.join, List.foldl_append]

theorem current_start : (start .empty).Current :=
  ⟨.inr ⟨rfl, rfl, rfl, rfl⟩, by simp [Grown, start]⟩

/-- Only the canvas, the board and the objects matter. -/
theorem Current.of_world {state : RunState} (h : state.Current) (vars assignments) :
    ({ state with world := { state.world with vars, assignments } } : RunState).Current := by
  refine ⟨?_, h.grown⟩
  rcases h.told with ⟨event, hevent, hshows⟩ | hnone
  · exact .inl ⟨event, hevent, hshows.canvas, hshows.board, hshows.objects⟩
  · exact .inr hnone

theorem quiet_grown : Quiet Grown where
  write {state} role text h event hevent := by
    obtain ⟨rest, hrest⟩ := h event hevent
    exact ⟨rest ++ (text ++ "\n"), by rw [output_write, hrest, String.append_assoc]⟩
  drawn _ h := h

theorem quiet_current : Quiet Current where
  write role text h := ⟨h.told, quiet_grown.write role text h.grown⟩
  drawn _ h := ⟨h.told, h.grown⟩

/-- Telling the listener makes the state current. -/
theorem Grown.current_push {state : RunState} (h : state.Grown) (name : String) :
    ({ state with events := state.events.push (state.event name) } : RunState).Current where
  told := .inl ⟨state.event name, by simp, rfl, rfl, rfl⟩
  grown event hevent := by
    rcases Array.mem_push.mp hevent with hold | rfl
    · exact h event hold
    · exact ⟨"", by simp [event, output]⟩

end RunState

namespace Run

variable {α : Type} {settings : Settings}

/-- The board and the records agree, and the listener knows of them. -/
def IsTold (state : RunState) : Prop := state.world.Sound ∧ state.Current

/-- The world has been changed and the listener is yet to be told. -/
def IsUntold (P : World → Prop) (state : RunState) : Prop := P state.world ∧ state.Grown

theorem quiet_isTold : Quiet IsTold where
  write role text h := ⟨h.1, RunState.quiet_current.write role text h.2⟩
  drawn drawn h := ⟨h.1, RunState.quiet_current.drawn drawn h.2⟩

theorem quiet_isUntold (P : World → Prop) : Quiet (IsUntold P) where
  write role text h := ⟨h.1, RunState.quiet_grown.write role text h.2⟩
  drawn drawn h := ⟨h.1, RunState.quiet_grown.drawn drawn h.2⟩

theorem isTold_start : IsTold (.start .empty) := ⟨World.sound_empty, RunState.current_start⟩

theorem isTold_bindings {state : RunState} (h : IsTold state) (vars assignments) :
    IsTold { state with world := { state.world with vars, assignments } } :=
  ⟨⟨h.1.size, h.1.keyed, h.1.placed, h.1.nodup, h.1.shown⟩, h.2.of_world vars assignments⟩

/-! ## Changes and what is written of them -/

/-- A change that fails leaves the listener informed; one that succeeds has to be told. -/
theorem ensures_change {operation : World → Outcome α} {done : World → α → Prop}
    (h : ∀ world, world.Sound → (operation world).IsWhole world done) :
    Ensures IsTold (change operation) (fun a => IsUntold (done · a))
      fun stop state => (stop = .endless → False) ∧ IsTold state := by
  refine ⟨fun state hstate => ?_⟩
  have hwhole := h state.world hstate.1
  rw [run_change]
  generalize operation state.world = outcome at hwhole ⊢
  obtain ⟨after, result⟩ := outcome
  cases result with
  | ok a => exact ⟨hwhole, hstate.2.grown⟩
  | error fault =>
    obtain rfl : after = state.world := hwhole
    exact ⟨nofun, hstate⟩

theorem ensures_emit {P : World → Prop} {pieces : List Scalar}
    (h : ∀ piece ∈ pieces, piece.Written) {halt : Stop → RunState → Prop} :
    Ensures (IsUntold P) (emit pieces) (fun _ => IsUntold P) halt :=
  ((quiet_isUntold P).completes_emit h).mono (fun _ h => h) (fun _ _ h => h) fun _ _ h => h.elim

theorem ensures_notify (hlistener : settings.listener = .recording) (name : String)
    {halt : Stop → RunState → Prop} :
    Ensures (IsUntold World.Sound) (notify settings name) (fun _ => IsTold) halt := by
  rw [notify, hlistener]
  exact ⟨fun state hstate => ⟨hstate.1, hstate.2.current_push name⟩⟩

/-- The end of a statement: a line that can be written, and the notice. -/
theorem ensures_conclude (hlistener : settings.listener = .recording) (name : String)
    {pieces : List Scalar} (h : ∀ piece ∈ pieces, piece.Written)
    {halt : Stop → RunState → Prop} :
    Ensures (IsUntold World.Sound) (do emit pieces; notify settings name) (fun _ => IsTold) halt :=
  .bind (ensures_emit h) fun _ => ensures_notify hlistener name

/-- What does not depend on the world may be taken out of the precondition. -/
theorem ensures_of_imp {p : Prop} {P : World → Prop} {action : Run α}
    {post : α → RunState → Prop} {halt : Stop → RunState → Prop}
    (h : p → Ensures (IsUntold P) action post halt) :
    Ensures (IsUntold fun world => p ∧ P world) action post halt :=
  ⟨fun state hstate => (h hstate.1.1).meets state ⟨hstate.1.2, hstate.2⟩⟩

/-- The record of an object that is there is found, and its id and its place can be written. -/
theorem run_recordOf {id : Scalar} {object : TileObject} {state : RunState}
    (H : state.world.Sound) (hobject : (id.normalize, object) ∈ state.world.objects.entries) :
    (recordOf id).run state = (.ok object, state) ∧
      object.id.Written ∧ object.x.Written ∧ object.y.Written := by
  have hid := H.keyed.admitted _ hobject
  obtain ⟨hobjectId, column, row, hplace, hgrid, -⟩ := H.placed _ hobject
  obtain ⟨hx, hy⟩ := Scalar.written_of_gridTile? hgrid
  have hget := (H.keyed.get?_eq_some_iff Scalar.exact_isId hid).mpr hobject
  rw [recordOf, run_get_bind, hget]
  exact ⟨rfl, hobjectId ▸ hid.written, hplace.1 ▸ hx, hplace.2 ▸ hy⟩

/-- The record of an object that is there, with what can be written of it. -/
theorem ensures_recordOf {id : Scalar} {P : TileObject → Prop} {halt : Stop → RunState → Prop} :
    Ensures
      (IsUntold fun world => world.Sound ∧
        ∃ object, (id.normalize, object) ∈ world.objects.entries ∧ P object)
      (recordOf id)
      (fun object state => (object.id.Written ∧ object.x.Written ∧ object.y.Written ∧ P object) ∧
        IsUntold World.Sound state)
      halt := by
  refine ⟨fun state hstate => ?_⟩
  obtain ⟨⟨H, object, hobject, hP⟩, hgrown⟩ := hstate
  obtain ⟨hrun, hid, hx, hy⟩ := run_recordOf H hobject
  rw [hrun]
  exact ⟨⟨hid, hx, hy, hP⟩, H, hgrown⟩

/-- The line of a move can be written if the direction and the state that it names can. -/
theorem written_moveLine {id direction state shown swap : Scalar} {column row : ℕ}
    (hid : id.Written) (hcolumn : (Scalar.int column).Written) (hrow : (Scalar.int row).Written)
    (hdirection : direction.truthy = true → direction.Written)
    (hstate : state ≠ .null → shown.Written) :
    ∀ piece ∈ [.text "Moved id=", id, .text " to (", .int column, .text ",", .int row, .text ")"] ++
        (if direction.truthy then [.text " ", direction] else []) ++
        (if state = .null then [] else [.text " set state=", shown]) ++
        (if swap.truthy then [.text " with swap"] else []),
      piece.Written := by
  have hstep : ∀ piece ∈ (if direction.truthy then [.text " ", direction] else [] : List Scalar),
      piece.Written := by
    split
    · next htruthy => simp [hdirection htruthy]
    · simp
  have hchange : ∀ piece ∈ (if state = .null then []
      else [.text " set state=", shown] : List Scalar), piece.Written := by
    split
    · simp
    · next hgiven => simp [hstate hgiven]
  have hexchange : ∀ piece ∈ (if swap.truthy then [.text " with swap"] else [] : List Scalar),
      piece.Written := by
    split <;> simp
  simp only [List.forall_mem_append]
  exact ⟨⟨⟨by simp [hid, hcolumn, hrow], hstep⟩, hchange⟩, hexchange⟩

/-! ## Statements -/

section

variable (hlistener : settings.listener = .recording)
include hlistener

theorem isTold_canvas (width height : Scalar) :
    Maintains False IsTold (canvas settings width height) := by
  refine Ensures.bind (ensures_change fun world H => H.isWhole_resize width height)
    fun dropped => ensures_of_imp fun hwritten => ?_
  refine .bind (ensures_emit (by simp [hwritten])) fun _ => ?_
  split
  · exact ensures_notify hlistener _
  · exact ensures_conclude hlistener _ (by simp)

theorem isTold_spawn (id x y : Node) {objectState : Node}
    (h : objectState.isExpression = true) :
    Maintains False IsTold (spawn settings id x y objectState) := by
  refine .bind (quiet_isTold.completes_value settings id).maintains fun id => ?_
  refine .bind (quiet_isTold.completes_value settings x).maintains fun x => ?_
  refine .bind (quiet_isTold.completes_value settings y).maintains fun y => ?_
  refine Ensures.bind ((quiet_isTold.ensures_value settings h).mono (fun _ h => h)
    (fun _ _ h => h) fun _ _ h => h.elim) fun objectState => .of_imp fun hwritten => ?_
  refine .bind (ensures_change fun world H => H.isWhole_spawn id x y objectState) fun evicted => ?_
  refine .bind ensures_recordOf fun object => .of_imp fun hobject => ?_
  obtain ⟨hid, hx, hy, hstate⟩ := hobject
  have hstate : object.state.Written := hstate ▸ hwritten.normalize
  split
  · exact ensures_conclude hlistener _ (by simp [hid, hx, hy, hstate])
  · exact .bind (ensures_emit (by simp [hid, hx, hy])) fun _ =>
      ensures_conclude hlistener _ (by simp [hid, hx, hy, hstate])

theorem isTold_despawn (id : Node) : Maintains False IsTold (despawn settings id) := by
  refine .bind (quiet_isTold.completes_value settings id).maintains fun id => ?_
  refine Ensures.bind (ensures_change fun world H => H.isWhole_despawn id) fun object => ?_
  exact ensures_of_imp fun hid => ensures_conclude hlistener _ (by simp [hid])

theorem isTold_move (id x y : Node) (direction : Scalar) {objectState : Node} (swap : Scalar)
    (h : objectState.isOptional = true) :
    Maintains False IsTold (move settings id x y direction objectState swap) := by
  refine .bind (quiet_isTold.completes_value settings id).maintains fun id => ?_
  refine .bind (quiet_isTold.completes_optionalValue settings x).maintains fun x => ?_
  refine .bind (quiet_isTold.completes_optionalValue settings y).maintains fun y => ?_
  refine Ensures.bind ((quiet_isTold.ensures_optionalValue settings h).mono (fun _ h => h)
    (fun _ _ h => h) fun _ _ h => h.elim) fun objectState => .of_imp fun hwritten => ?_
  refine .bind (ensures_change fun world H =>
    H.isWhole_move id direction x y objectState swap) fun moved => ensures_of_imp fun hmoved => ?_
  obtain ⟨-, hdirection, hx, hy⟩ := hmoved
  refine .bind ensures_recordOf fun object => .of_imp fun hobject => ?_
  obtain ⟨hid, -, -, hstate⟩ := hobject
  refine ensures_conclude hlistener _ (written_moveLine hid hx hy hdirection fun hgiven => ?_)
  exact hstate hgiven ▸ hwritten.normalize

theorem isTold_keyMove (key : String) :
    Maintains False IsTold (Session.keyMove settings key) := by
  refine ⟨fun state hstate => ?_⟩
  rw [Session.keyMove, run_get_bind]
  split
  · next direction id _ _ =>
    split
    · have hwhole := hstate.1.isWhole_move id direction .null .null .null (.bool false)
      generalize state.world.move id direction .null .null .null (.bool false) = outcome
        at hwhole ⊢
      obtain ⟨after, result⟩ := outcome
      dsimp only
      rw [run_bind, run_set]
      cases result with
      | ok moved =>
        obtain ⟨⟨hid, -⟩, H, -⟩ := hwhole
        exact (ensures_conclude hlistener _ (by simp [hid])).meets _ ⟨H, hstate.2.grown⟩
      | error fault =>
        obtain rfl : after = state.world := hwhole
        exact (Maintains.ite (quiet_isTold.completes_logError settings _).maintains
          (.throw fault)).meets state hstate
    · exact hstate
  · exact hstate

/-! ## Runs -/

theorem isTold_invariant :
    Run.Invariant settings (fun node => node.isStatement = true) IsTold where
  toQuiet := quiet_isTold
  plain {node action} hnode haction := by
    cases node with
    | define name node =>
      cases haction
      exact .bind (quiet_isTold.completes_value settings node).maintains fun value =>
        .bind (.modify fun state h => isTold_bindings h _ _) fun _ => quiet_isTold.maintains_emit _
    | compute node => cases haction; exact quiet_isTold.maintains_compute node
    | spawn id x y objectState =>
      cases haction
      simp only [Node.isStatement, Node.isSimple, Bool.and_eq_true] at hnode
      exact isTold_spawn hlistener id x y hnode.2
    | despawn id => cases haction; exact isTold_despawn hlistener id
    | move id x y direction objectState swap =>
      cases haction
      obtain ⟨-, -, -, -, -, -, hstate⟩ :=
        Node.exists_of_isSimple_move (Node.isSimple_of_isStatement hnode (by simp) (by simp))
      exact isTold_move hlistener id x y direction _ hstate
    | wait duration => cases haction; exact quiet_isTold.maintains_wait duration
    | _ => cases haction

theorem isTold_batch :
    Batch.Invariant settings (fun node => node.isStatement = true) IsTold where
  toInvariant := isTold_invariant hlistener
  canvas _ := isTold_canvas hlistener _ _
  assign {_ _ _ node} _ hjump := by
    rw [Batch.assign]
    exact .bind (quiet_isTold.completes_value settings node).maintains fun value =>
      .bind (.modify fun state h => isTold_bindings h _ _) fun _ =>
        .bind (quiet_isTold.maintains_emit _) fun _ => hjump _ _

theorem isTold_session :
    Session.Invariant settings (fun node => node.isStatement = true) IsTold where
  toInvariant := isTold_invariant hlistener
  canvas _ := isTold_canvas hlistener _ _
  assign {_ node} _ := by
    rw [Stepwise.assign]
    exact .bind (quiet_isTold.completes_value settings node).maintains fun value =>
      .bind (.modify fun state h => isTold_bindings h _ _) fun _ =>
        quiet_isTold.maintains_trace settings _
  receive inputs h := isTold_bindings h _ _
  keyMove := isTold_keyMove hlistener

end

end Run

/-- **Notices never lag behind the world.** Let a program come from a text, with any draws, traced
or not, and a listener that keeps every event. When a run from start to end on the empty world is
over, and likewise after any calls of a host that drives the program tick by tick, the last event
shows the canvas, the board and the objects as they are, or there is no event and they are still
those of the empty world; and the output of every event is the beginning of the output. -/
theorem current_of_parseSource {depth : ℕ} {source : String} {program : List Node}
    (h : parseSource depth source = .ok program) (debug : Bool) (draw : ℕ → Scalar) :
    (∀ options : BatchOptions,
      ((Batch.run (.batch debug .recording draw) options program).run (.start .empty)).2.Current) ∧
    ∀ calls : List Session.Call,
      (calls.foldl Session.call
        (Session.create (.stepwise debug .recording draw) program)).state.Current := by
  have hprogram : ∀ node ∈ program, node.isStatement = true :=
    List.all_eq_true.mp (settles_of_parseSource h).1
  constructor
  · intro options
    have hbatch : Batch.Invariant (.batch debug .recording draw) _ IsTold := isTold_batch rfl
    have hkept : Maintains _ IsTold (Batch.run (.batch debug .recording draw) options program) :=
      hbatch.maintains_run hereditary_isStatement hprogram
    have hrun := hkept.meets (.start .empty) isTold_start
    generalize (Batch.run (.batch debug .recording draw) options program).run (.start .empty)
      = outcome at hrun ⊢
    obtain ⟨_ | _, after⟩ := outcome
    · exact hrun.2.2
    · exact hrun.2
  · intro calls
    exact ((Session.Holds.create quiet_isTold isTold_start).calls hereditary_isStatement
      (isTold_session rfl) hprogram calls).state.2

/-- An object that moves until it stands at the edge, and a variable that is its state. -/
def walkSource : String :=
  "canvas 3 1\nspawn id=1 x=0 y=0\nref=a(5)\nrepeat 100 4\n. move id=1 right set=ref(a)\n"

/-- The program of `walkSource`. -/
def walkProgram : List Node :=
  [.canvas (.int 3) (.int 1),
    .spawn (.number (.int 1)) (.number (.int 0)) (.number (.int 0)) (.number (.int 0)),
    .define "a" (.number (.int 5)),
    .loop (.int 100) (.int 4)
      [.move (.number (.int 1)) .absent .absent "right" (.read "a") (.bool false)]]

theorem parseSource_walkSource : parseSource nestingLimit walkSource = .ok walkProgram :=
  parseSource_of_sameAll (by decide +kernel) (by decide +kernel)

theorem current_of_walkSource :
    ((Batch.run (.batch false .recording fun _ => .int 0) {} walkProgram).run
      (.start .empty)).2.Current ∧
    ([Session.Call.setUp, .step .empty, .pressKey "d"].foldl Session.call
      (Session.create (.stepwise true .recording fun _ => .int 0) walkProgram)).state.Current :=
  ⟨(current_of_parseSource parseSource_walkSource false _).1 {},
    (current_of_parseSource parseSource_walkSource true _).2 _⟩

end TileScript
