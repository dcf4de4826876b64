import TileScript.Proofs.Run.Invariants

/-!
# What runs keep of a world

A run changes its world only by the changes of `World.Edit` and by setting variables and binding
keys. So whatever these keep, every action of a run keeps, however it ends: a fault or a stop leaves
the world as the steps before it made it.

## Main definitions

* `World.Stable`: a property that the changes and the bindings keep.
* `Run.Keeps`: an action keeps a property of the world, whatever its result is.

## Main statements

* `Batch.keeps_statement`, `Batch.keeps_block`, `Batch.keeps_jump`: runs from start to end.
* `Session.keeps_call`: the calls of a host that drives a run tick by tick.
-/

namespace TileScript

/-- A property of worlds that every change and every binding keeps. -/
structure World.Stable (P : World → Prop) : Prop where
  edit : ∀ world edit, P world → P (world.edit edit)
  bindings : ∀ world vars assignments, P world → P { world with vars, assignments }

theorem World.stable_true : World.Stable fun _ => True :=
  ⟨fun _ _ _ => trivial, fun _ _ _ _ => trivial⟩

variable {P : World → Prop}

namespace Run

variable {α : Type} {action : Run α}

/-- The action keeps the property, also if it stops. -/
def Keeps (P : World → Prop) (action : Run α) : Prop :=
  ∀ state, P state.world → P (action.run state).2.world

/-- To keep a property is to maintain it in whatever way the action ends. -/
theorem keeps_iff_maintains :
    Keeps P action ↔ Maintains True (fun state => P state.world) action := by
  constructor
  · intro h
    refine ⟨fun state hstate => ?_⟩
    have hafter := h state hstate
    generalize action.run state = outcome at hafter ⊢
    obtain ⟨_ | _, after⟩ := outcome
    · exact ⟨fun _ => trivial, hafter⟩
    · exact hafter
  · exact fun h _ => h.state_run

end Run

open Run

namespace World.Stable

variable (hP : World.Stable P) (settings : Settings)
include hP

theorem robust : Robust fun state => P state.world where
  write _ _ h := h
  drawn _ h := h
  events _ h := h
  edit {state} edit h := hP.edit state.world edit h

theorem maintains_setVariable {E : Prop} (name : String) (value : Scalar) :
    Maintains E (fun state => P state.world) (setVariable name value) :=
  .modify fun state => hP.bindings state.world _ _

theorem maintains_setAssignment {E : Prop} (key : String) (value : Scalar) :
    Maintains E (fun state => P state.world) (setAssignment key value) :=
  .modify fun state => hP.bindings state.world _ _

theorem invariant : Run.Invariant settings (fun _ => True) fun state => P state.world :=
  hP.robust.invariant fun {_ node} _ =>
    .bind (hP.robust.completes_value settings node).maintains fun _ =>
      .bind (hP.maintains_setVariable _ _) fun _ => hP.robust.maintains_emit _

theorem batch : Batch.Invariant settings (fun _ => True) fun state => P state.world where
  toInvariant := hP.invariant settings
  canvas _ := hP.robust.maintains_canvas _ _
  assign {_ _ _ node} _ hjump := by
    rw [Batch.assign]
    exact .bind (hP.robust.completes_value settings node).maintains fun _ =>
      .bind (hP.maintains_setAssignment _ _) fun _ =>
        .bind (hP.robust.maintains_emit _) fun _ => hjump _ _

theorem session : Session.Invariant settings (fun _ => True) fun state => P state.world where
  toInvariant := hP.invariant settings
  canvas _ := hP.robust.maintains_canvas _ _
  assign {_ node} _ := by
    rw [Stepwise.assign]
    exact .bind (hP.robust.completes_value settings node).maintains fun _ =>
      .bind (hP.maintains_setAssignment _ _) fun _ => hP.robust.maintains_trace settings _
  receive {state} inputs h := hP.bindings state.world _ _ h
  keyMove := hP.robust.maintains_keyMove settings

end World.Stable

/-! ## Runs from start to end -/

namespace Batch

variable (settings : Settings) (options : BatchOptions) (hP : World.Stable P)
include hP

/-- A statement keeps what the jumps it may make keep. -/
theorem keeps_statement {jump : String → Scalar → Run Unit}
    (hjump : ∀ key value, Keeps P (jump key value)) (node : Node) :
    Keeps P (statement settings options jump node) :=
  keeps_iff_maintains.mpr <| (hP.batch settings).maintains_statement hereditary_true
    (fun _ => trivial) (fun key value => keeps_iff_maintains.mp (hjump key value)) node trivial

theorem keeps_block {jump : String → Scalar → Run Unit}
    (hjump : ∀ key value, Keeps P (jump key value)) (nodes : List Node) :
    Keeps P (block settings options jump nodes) :=
  keeps_iff_maintains.mpr <| (hP.batch settings).maintains_block hereditary_true
    (fun _ => trivial) (fun key value => keeps_iff_maintains.mp (hjump key value)) nodes
    fun _ _ => trivial

theorem keeps_jump (program : List Node) (idle : List String) (key : String) (value : Scalar) :
    Keeps P (jump settings options program idle key value) :=
  keeps_iff_maintains.mpr <| (hP.batch settings).maintains_jump hereditary_true
    (fun _ => trivial) (fun _ _ => trivial) idle key value

theorem keeps_run (program : List Node) : Keeps P (run settings options program) :=
  keeps_block settings options hP
    (keeps_jump settings options hP program (assignedKeysAll program)) program

end Batch

/-! ## Runs tick by tick -/

namespace Session

/-- A session says nothing of its nodes, so that it holds whatever its state has. -/
theorem holds (session : Session) (h : P session.state.world) :
    session.Holds session.settings session.program (fun _ => True) fun state => P state.world :=
  ⟨rfl, rfl, fun _ _ _ _ => trivial, h⟩

theorem keeps_create (settings : Settings) (program : List Node) (hempty : P .empty) :
    P (create settings program).state.world :=
  have H : (create settings program).Holds settings program (fun _ => True) fun state =>
      P state.world := .create ⟨fun _ _ h => h, fun _ h => h⟩ hempty
  H.state

theorem keeps_call (hP : World.Stable P) (session : Session) (call : Call)
    (hsession : P session.state.world) : P (session.call call).state.world :=
  ((session.holds hsession).call hereditary_true (hP.session session.settings)
    (fun _ _ => trivial) call).state

end Session

end TileScript
