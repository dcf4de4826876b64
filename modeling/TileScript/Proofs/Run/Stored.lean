import TileScript.Proofs.Evaluation.Normal
import TileScript.Proofs.Run.Notified

/-!
# What programs store

The variables, the states of objects and the keys that a program binds have numbers in normal form
that can be written. Values come from expressions, which read only what is already stored; a failed
evaluation gives zero, and a change of the world stores no more than the state it is given.

A host that drives a program tick by tick may bind a key to anything, so that there the values of
keys say nothing. Neither what the host supplies nor a move by a key reaches the variables or the
states.

## Main definitions

* `World.Edit.Sets`: the state that a change gives an object has a property.
* `World.Stores`: the numbers of a world are as programs store them.
* `Session.Passes`: the states that runs tick by tick pass through.

## Main statements

* `World.each_state_edit`: what all states keep through a change.
* `Run.isStored_batch`, `Run.isStored_session`: runs store such numbers and no others.
* `Session.passes_calls`, `Session.Passes.stores`: the same at all times of a run tick by tick.
-/

namespace TileScript

/-! ## The states of objects -/

namespace World

variable {world : World} {P : Scalar → Prop} {Q : TileObject → Prop}

/-- The state that a change gives an object has the property. -/
def Edit.Sets (P : Scalar → Prop) : Edit → Prop
  | .spawn _ _ _ state => P state.normalize
  | .move _ _ _ _ state _ => state ≠ .null → P state.normalize
  | .resize _ _ | .despawn _ => True

theorem kept_restack_subset (board : Board) (entries : List (Scalar × TileObject)) :
    (restack board entries).kept ⊆ entries := by
  induction entries generalizing board with
  | nil => exact List.Subset.refl _
  | cons entry rest ih =>
    obtain ⟨key, object⟩ := entry
    rw [restack]
    split
    · exact List.Subset.refl _
    · exact List.Subset.refl _
    · exact List.subset_cons_self _ _
    · exact List.cons_subset_cons _ (ih _)
    · exact List.subset_cons_of_subset _ (ih _)

theorem each_evict {objects : Table Scalar TileObject} (h : objects.Each Q) {names : List String}
    {outcome : Table Scalar TileObject × Except Fault Unit} (hrun : evict objects names = outcome) :
    outcome.1.Each Q := by
  subst hrun
  induction names generalizing objects with
  | nil => exact h
  | cons name rest ih =>
    rw [evict]
    split
    · exact h
    · exact ih h.erase

theorem each_displace {objects : Table Scalar TileObject} (h : objects.Each Q) {x y : Scalar}
    (hplace : ∀ object, Q object → Q { object with x, y }) {board : Board} {start : ℕ × ℕ}
    {names : List String} {outcome : Board × Table Scalar TileObject × Except Fault Unit}
    (hrun : displace board objects start x y names = outcome) : outcome.2.1.Each Q := by
  subst hrun
  induction names generalizing board objects with
  | nil => exact h
  | cons name rest ih =>
    rw [displace]
    split
    · exact h
    · exact ih (h.modify hplace)

theorem each_state_settle (h : world.objects.Each fun object => P object.state) {state : Scalar}
    (hstate : state ≠ .null → P state.normalize) (journey : Journey) :
    (world.settle journey state).objects.Each fun object => P object.state := by
  refine h.modify fun object hobject => ?_
  dsimp only
  split
  · exact hobject
  · next hgiven => exact hstate hgiven

/-- A change of the world stores no states but the one that it is given. -/
theorem each_state_edit (h : world.objects.Each fun object => P object.state) {edit : Edit}
    (hedit : edit.Sets P) : (world.edit edit).objects.Each fun object => P object.state := by
  cases edit with
  | resize width height =>
    rw [World.edit, World.resize]
    split
    · exact h
    · exact h.of_subset (kept_restack_subset _ _)
  | spawn id x y state =>
    rw [World.edit, World.spawn]
    split
    · exact h
    dsimp only
    split
    · exact h
    split
    · next hevict => exact each_evict h hevict
    · next hevict => exact (each_evict h hevict).insert hedit
  | despawn id =>
    rw [World.edit, World.despawn]
    split
    · exact h
    · exact h.erase
  | move id direction x y state swap =>
    rw [World.edit, World.move]
    split
    · exact h
    dsimp only
    split
    · exact h
    split
    · split
      · split
        · next hdisplace => exact each_displace h (fun _ hobject => hobject) hdisplace
        · next hdisplace =>
          exact each_state_settle (each_displace h (fun _ hobject => hobject) hdisplace) hedit _
      · exact each_state_settle h hedit _
    · exact each_state_settle h hedit _

/-- The board and the records agree, the variables and the states of the objects are numbers as
programs store them, and the values of keys have a property. -/
structure Stores (bound : Scalar → Prop) (world : World) : Prop where
  sound : world.Sound
  vars : world.vars.Each Scalar.IsNormal
  states : world.objects.Each fun object => object.state.IsNormal
  assignments : world.assignments.Each bound

namespace Stores

variable {bound : Scalar → Prop}

theorem empty (bound : Scalar → Prop) : World.empty.Stores bound :=
  ⟨sound_empty, .empty, .empty, .empty⟩

theorem edit (H : world.Stores bound) {edit : Edit} (hedit : edit.Sets Scalar.IsNormal) :
    (world.edit edit).Stores bound where
  sound := H.sound.edit edit
  vars := (world.bindings_edit edit).1 ▸ H.vars
  states := each_state_edit H.states hedit
  assignments := (world.bindings_edit edit).2 ▸ H.assignments

theorem bindings (H : world.Stores bound) {vars assignments : Table String Scalar}
    (hvars : vars.Each Scalar.IsNormal) (hassignments : assignments.Each bound) :
    ({ world with vars, assignments } : World).Stores bound :=
  ⟨⟨H.sound.size, H.sound.keyed, H.sound.placed, H.sound.nodup, H.sound.shown⟩, hvars, H.states,
    hassignments⟩

end Stores

end World

/-! ## Statements -/

namespace Run

variable {α : Type} {E : Prop} {settings : Settings} {bound : Scalar → Prop}

/-- The world of the state stores numbers as programs do. -/
def IsStored (bound : Scalar → Prop) (state : RunState) : Prop := state.world.Stores bound

theorem quiet_isStored : Quiet (IsStored bound) := ⟨fun _ _ h => h, fun _ h => h⟩

/-- The value of an expression is in normal form; that of one that fails is zero. -/
theorem isNormal_valueOf {node : Node} (h : node.isExpression = true) {state : RunState}
    (H : IsStored bound state) : (valueOf settings node state).IsNormal := by
  rw [valueOf]
  cases hrun : evaluation settings node state with
  | mk result after =>
    cases result with
    | ok value => exact gives_isNormal_evaluate H.vars 0 node h _ _ _ hrun
    | error fault => exact Scalar.isNormal_zero

theorem ensures_normalValue {node : Node} (h : node.isExpression = true)
    {halt : Stop → RunState → Prop} :
    Ensures (IsStored bound) (value settings node)
      (fun value state => value.IsNormal ∧ IsStored bound state) halt := by
  refine ⟨fun state hstate => ?_⟩
  rw [run_value]
  exact ⟨isNormal_valueOf h hstate, quiet_isStored.evaluated hstate settings node⟩

theorem ensures_normalOptional {node : Node} (h : node.isOptional = true)
    {halt : Stop → RunState → Prop} :
    Ensures (IsStored bound) (optionalValue settings node)
      (fun value state => (value ≠ .null → value.IsNormal) ∧ IsStored bound state) halt := by
  rw [optionalValue]
  split
  · exact .pure fun _ hstate => ⟨fun hnull => (hnull rfl).elim, hstate⟩
  · next hpresent =>
    exact (ensures_normalValue (by simpa [Node.isOptional, hpresent] using h)).mono
      (fun _ h => h) (fun _ _ h => ⟨fun _ => h.1, h.2⟩) fun _ _ h => h

theorem maintains_stored_notify (name : String) :
    Maintains E (IsStored bound) (notify settings name) := by
  rw [notify]
  split
  · exact .pure _
  · exact .modify fun _ h => h
  · exact (quiet_isStored.completes_write _ _).maintains

theorem maintains_stored_change {operation : World → Outcome α} (edit : World.Edit)
    (h : ∀ world, (operation world).1 = world.edit edit) (hedit : edit.Sets Scalar.IsNormal) :
    Maintains E (IsStored bound) (change operation) := by
  refine ⟨fun state hstate => ?_⟩
  have hafter : IsStored bound { state with world := state.world.edit edit } := hstate.edit hedit
  rw [run_change, h]
  cases (operation state.world).2 with
  | ok a => exact hafter
  | error fault => exact ⟨nofun, hafter⟩

/-- The end of a statement: a line and the notice. -/
theorem maintains_stored_conclude (pieces : List Scalar) (name : String) :
    Maintains E (IsStored bound) (do emit pieces; notify settings name) :=
  .bind (quiet_isStored.maintains_emit pieces) fun _ => maintains_stored_notify name

theorem isStored_canvas (width height : Scalar) :
    Maintains E (IsStored bound) (canvas settings width height) := by
  refine .bind (maintains_stored_change (.resize width height) (fun _ => rfl) trivial) fun _ => ?_
  refine .bind (quiet_isStored.maintains_emit _) fun _ => ?_
  split
  · exact maintains_stored_notify _
  · exact maintains_stored_conclude _ _

theorem isStored_define {name : String} {node : Node} (h : node.isExpression = true) :
    Maintains E (IsStored bound) (define settings name node) := by
  refine Ensures.bind (ensures_normalValue h) fun value => .of_imp fun hvalue => ?_
  refine Maintains.bind (.modify fun state hstate => ?_) fun _ => quiet_isStored.maintains_emit _
  exact hstate.bindings (hstate.vars.insert hvalue) hstate.assignments

theorem isStored_spawn (id x y : Node) {objectState : Node} (h : objectState.isExpression = true) :
    Maintains E (IsStored bound) (spawn settings id x y objectState) := by
  refine .bind (quiet_isStored.completes_value settings id).maintains fun id => ?_
  refine .bind (quiet_isStored.completes_value settings x).maintains fun x => ?_
  refine .bind (quiet_isStored.completes_value settings y).maintains fun y => ?_
  refine Ensures.bind (ensures_normalValue h) fun objectState => .of_imp fun hvalue => ?_
  refine Maintains.bind (maintains_stored_change (.spawn id x y objectState) (fun _ => rfl)
    hvalue.normalize) fun evicted => .bind (maintains_recordOf id) fun object => ?_
  split
  · exact maintains_stored_conclude _ _
  · exact .bind (quiet_isStored.maintains_emit _) fun _ => maintains_stored_conclude _ _

theorem isStored_despawn (id : Node) : Maintains E (IsStored bound) (despawn settings id) := by
  refine .bind (quiet_isStored.completes_value settings id).maintains fun id => ?_
  refine .bind (maintains_stored_change (.despawn id) (fun _ => rfl) trivial) fun _ => ?_
  exact maintains_stored_conclude _ _

theorem isStored_move (id x y : Node) (direction : Scalar) {objectState : Node} (swap : Scalar)
    (h : objectState.isOptional = true) :
    Maintains E (IsStored bound) (move settings id x y direction objectState swap) := by
  refine .bind (quiet_isStored.completes_value settings id).maintains fun id => ?_
  refine .bind (quiet_isStored.completes_optionalValue settings x).maintains fun x => ?_
  refine .bind (quiet_isStored.completes_optionalValue settings y).maintains fun y => ?_
  refine Ensures.bind (ensures_normalOptional h) fun objectState => .of_imp fun hvalue => ?_
  refine Maintains.bind (maintains_stored_change (.move id direction x y objectState swap)
    (fun _ => rfl) fun hgiven => (hvalue hgiven).normalize) fun moved => ?_
  exact .bind (maintains_recordOf id) fun object => maintains_stored_conclude _ _

theorem isStored_keyMove (key : String) :
    Maintains E (IsStored bound) (Session.keyMove settings key) := by
  refine ⟨fun state hstate => ?_⟩
  rw [Session.keyMove, run_get_bind]
  split
  · next direction id _ _ =>
    split
    · -- No state is given, so that all stay as they are.
      have hedit : (World.Edit.move id direction .null .null .null (.bool false)).Sets
          Scalar.IsNormal := fun hnull => (hnull rfl).elim
      have hafter : IsStored bound { state with
          world := (state.world.move id direction .null .null .null (.bool false)).1 } :=
        hstate.edit hedit
      have hset : Maintains E (IsStored bound) (set { state with
          world := (state.world.move id direction .null .null .null (.bool false)).1 } :
          Run Unit) := ⟨fun _ _ => hafter⟩
      refine (Maintains.bind hset fun _ => ?_).meets state hstate
      split
      · exact maintains_stored_conclude _ _
      · exact .ite (quiet_isStored.completes_logError settings _).maintains (.throw _)
    · exact hstate
  · exact hstate

/-! ## Runs -/

theorem isStored_invariant :
    Run.Invariant settings (fun node => node.isStatement = true) (IsStored bound) where
  toQuiet := quiet_isStored
  plain {node action} hnode haction := by
    cases node with
    | define name node =>
      cases haction
      simp only [Node.isStatement, Node.isSimple, Bool.and_eq_true] at hnode
      exact isStored_define hnode.2
    | compute node => cases haction; exact quiet_isStored.maintains_compute node
    | spawn id x y objectState =>
      cases haction
      simp only [Node.isStatement, Node.isSimple, Bool.and_eq_true] at hnode
      exact isStored_spawn id x y hnode.2
    | despawn id => cases haction; exact isStored_despawn id
    | move id x y direction objectState swap =>
      cases haction
      obtain ⟨-, -, -, -, -, -, hstate⟩ :=
        Node.exists_of_isSimple_move (Node.isSimple_of_isStatement hnode (by simp) (by simp))
      exact isStored_move id x y direction _ hstate
    | wait duration => cases haction; exact quiet_isStored.maintains_wait duration
    | _ => cases haction

/-- A run from start to end binds keys to numbers in normal form. -/
theorem isStored_batch : Batch.Invariant settings (fun node => node.isStatement = true)
    (IsStored Scalar.IsNormal) where
  toInvariant := isStored_invariant
  canvas _ := isStored_canvas _ _
  assign {E _ key node} hnode hjump := by
    simp only [Node.isStatement, Node.isSimple, Bool.and_eq_true] at hnode
    rw [Batch.assign]
    refine Ensures.bind (ensures_normalValue hnode.2) fun value => .of_imp fun hvalue => ?_
    refine Maintains.bind (.modify fun state hstate => ?_) fun _ =>
      .bind (quiet_isStored.maintains_emit _) fun _ => hjump key value
    exact hstate.bindings hstate.vars (hstate.assignments.insert hvalue)

theorem isStored_session : Session.Invariant settings (fun node => node.isStatement = true)
    (IsStored fun _ => True) where
  toInvariant := isStored_invariant
  canvas _ := isStored_canvas _ _
  assign {_ node} _ := by
    rw [Stepwise.assign]
    refine .bind (quiet_isStored.completes_value settings node).maintains fun value => ?_
    refine .bind (.modify fun state hstate => ?_) fun _ =>
      quiet_isStored.maintains_trace settings _
    exact hstate.bindings hstate.vars fun _ _ => trivial
  receive inputs h := h.bindings h.vars fun _ _ => trivial
  keyMove := isStored_keyMove

end Run

/-! ## All times of a run tick by tick -/

namespace Session

open Run

/-- The states that runs tick by tick pass through, if their statements are of the grammar: there is
no telling in which order lines are written, draws are taken and statements are done, nor what the
host does in between. -/
inductive Passes (settings : Settings) : RunState → Prop
  | start : Passes settings (.start .empty)
  | write {state : RunState} (role : LineRole) (text : String) (h : Passes settings state) :
    Passes settings (state.write role text)
  | draw {state : RunState} (drawn : ℕ) (h : Passes settings state) :
    Passes settings { state with drawn }
  | plain {state : RunState} {node : Node} {action : Run Unit} (hnode : node.isStatement = true)
    (haction : plain? settings node = some action) (h : Passes settings state) :
    Passes settings (action.run state).2
  | canvas {state : RunState} {width height : Scalar}
    (hnode : (Node.canvas width height).isStatement = true) (h : Passes settings state) :
    Passes settings ((Run.canvas settings width height).run state).2
  | assign {state : RunState} {key : String} {node : Node}
    (hnode : (Node.assign key node).isStatement = true) (h : Passes settings state) :
    Passes settings ((Stepwise.assign settings key node).run state).2
  | receive {state : RunState} (inputs : Table String Scalar) (h : Passes settings state) :
    Passes settings { state with
      world := { state.world with assignments := state.world.assignments.update inputs } }
  | keyMove {state : RunState} (key : String) (h : Passes settings state) :
    Passes settings ((Session.keyMove settings key).run state).2

namespace Passes

variable {settings : Settings}

theorem maintains {α : Type} {action : Run α} (h : Maintains False (fun _ => True) action)
    (hpasses : ∀ state, Passes settings state → Passes settings (action.run state).2) :
    Maintains False (Passes settings) action := by
  refine ⟨fun state hstate => ?_⟩
  have hstop := h.meets state trivial
  have hafter := hpasses state hstate
  generalize action.run state = outcome at hstop hafter ⊢
  obtain ⟨_ | _, after⟩ := outcome
  · exact ⟨hstop.1, hafter⟩
  · exact hafter

theorem invariant :
    Session.Invariant settings (fun node => node.isStatement = true) (Passes settings) := by
  have hend := World.stable_true.session settings
  exact {
    write := fun role text h => .write role text h
    drawn := fun drawn h => .draw drawn h
    plain := fun hnode haction =>
      maintains (hend.plain trivial haction) fun _ => .plain hnode haction
    canvas := fun hnode => maintains (hend.canvas trivial) fun _ => .canvas hnode
    assign := fun hnode => maintains (hend.assign trivial) fun _ => .assign hnode
    receive := fun inputs h => .receive inputs h
    keyMove := fun key => maintains (hend.keyMove key) fun _ => .keyMove key }

/-- At all times the variables and the states are numbers as programs store them. -/
theorem stores {state : RunState} (h : Passes settings state) :
    state.world.Stores fun _ => True := by
  have hI : Session.Invariant settings _ (IsStored fun _ => True) := isStored_session
  induction h with
  | start => exact .empty _
  | write role text _ ih => exact ih
  | draw drawn _ ih => exact ih
  | plain hnode haction _ ih => exact (hI.plain hnode haction).state_run ih
  | canvas hnode _ ih => exact (hI.canvas hnode).state_run ih
  | assign hnode _ ih => exact (hI.assign hnode).state_run ih
  | receive inputs _ ih => exact hI.receive inputs ih
  | keyMove key _ ih => exact (hI.keyMove key).state_run ih

end Passes

/-- Every call of a host ends in a state that runs pass through. -/
theorem passes_calls (settings : Settings) {program : List Node}
    (hprogram : ∀ node ∈ program, node.isStatement = true) (calls : List Call) :
    Passes settings (calls.foldl call (create settings program)).state :=
  ((Holds.create Passes.invariant.toQuiet .start).calls hereditary_isStatement
    Passes.invariant hprogram calls).state

end Session

end TileScript
