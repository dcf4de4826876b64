import TileScript.Proofs.Run.Ensures
import TileScript.Run.Batch

/-!
# Runs seen through a view

A run reads the world, the variables and the draws, and never its own log or the events that it has
told. So whatever is done to the log and to the events of a state, a run goes on in the same way: it
mirrors the run on the state as it was. A view is such a change of states, one that keeps the world
and passes on what statements write; an action mirrors another if it does on every view of a state
what the other does on the state itself.

## Main definitions

* `Run.Mirrors`: an action that does on the views of states what another does on the states.
* `Run.IsView`: the views that runs with two settings respect.

## Main statements

* `Run.IsView.mirrors_run`: a run from start to end on the view of a state.
-/

namespace TileScript.Run

variable {α β : Type} {view : RunState → RunState}

/-- On the view of a state the second action does what the first does on the state itself: it has
the same result, and it ends in the view of the other's state. -/
structure Mirrors (view : RunState → RunState) (action image : Run α) : Prop where
  run_eq : ∀ state, image.run (view state) = ((action.run state).1, view (action.run state).2)

namespace Mirrors

theorem pure (a : α) : Mirrors view (pure a) (pure a) := ⟨fun _ => rfl⟩

theorem throw (stop : Stop) : Mirrors view (throw stop : Run α) (throw stop) := ⟨fun _ => rfl⟩

theorem bind {action image : Run α} {next nextImage : α → Run β} (h : Mirrors view action image)
    (hnext : ∀ a, Mirrors view (next a) (nextImage a)) :
    Mirrors view (action >>= next) (image >>= nextImage) := by
  constructor
  intro state
  rw [run_bind, run_bind, h.run_eq state]
  cases action.run state with
  | mk result after =>
    cases result with
    | ok a => exact (hnext a).run_eq after
    | error stop => rfl

/-- What an action reads of its state it finds in the view. -/
theorem get_bind {next nextImage : RunState → Run α}
    (h : ∀ state, Mirrors view (next state) (nextImage (view state))) :
    Mirrors view (get >>= next) (get >>= nextImage) := by
  constructor
  intro state
  rw [run_get_bind, run_get_bind]
  exact (h state).run_eq state

theorem ite {condition : Prop} [Decidable condition] {yes yesImage no noImage : Run α}
    (hyes : Mirrors view yes yesImage) (hno : Mirrors view no noImage) :
    Mirrors view (if condition then yes else no) (if condition then yesImage else noImage) := by
  by_cases h : condition
  · simpa [h] using hyes
  · simpa [h] using hno

theorem ofExcept (result : Except Fault α) :
    Mirrors view (Run.ofExcept result) (Run.ofExcept result) := by
  cases result with
  | ok a => exact pure a
  | error fault => exact throw _

theorem forM {list : List α} {action image : α → Run Unit}
    (h : ∀ a, Mirrors view (action a) (image a)) :
    Mirrors view (list.forM action) (list.forM image) := by
  induction list with
  | nil => exact pure ()
  | cons a list ih => exact bind (h a) fun _ => ih

theorem iterate {action image : ℕ → Run Unit}
    (h : ∀ index, Mirrors view (action index) (image index)) (start times : ℕ) :
    Mirrors view (Run.iterate action start times) (Run.iterate image start times) := by
  induction times generalizing start with
  | zero => exact pure ()
  | succ times ih => exact bind (h start) fun _ => ih (start + 1)

end Mirrors

/-! ## Views -/

/-- The view keeps the world and passes on what statements write. Evaluating with the second
settings on the view of a state mirrors evaluating with the first on the state, and so does telling
the listener. -/
structure IsView (settings settings' : Settings) (view : RunState → RunState) : Prop where
  world_eq : ∀ state, (view state).world = state.world
  set_world : ∀ state world, view { state with world } = { view state with world }
  write_eq : ∀ state role text, role = .report ∨ role = .fault →
    view (state.write role text) = (view state).write role text
  mark_eq : settings'.faultMark = settings.faultMark
  value : ∀ node, Mirrors view (Run.value settings node) (Run.value settings' node)
  notify : ∀ name, Mirrors view (Run.notify settings name) (Run.notify settings' name)

namespace IsView

variable {settings settings' : Settings}

section Actions

variable (V : IsView settings settings' view)
include V

/-! ## Single actions -/

theorem write {role : LineRole} (h : role = .report ∨ role = .fault) (text : String) :
    Mirrors view (Run.write role text) (Run.write role text) := by
  constructor
  intro state
  rw [run_write, run_write, V.write_eq state role text h]

theorem emit (pieces : List Scalar) : Mirrors view (Run.emit pieces) (Run.emit pieces) :=
  .bind (.ofExcept _) fun _ => V.write (.inl rfl) _

theorem logError (message : String) :
    Mirrors view (Run.logError settings message) (Run.logError settings' message) := by
  rw [Run.logError, Run.logError, V.mark_eq]
  exact V.write (.inr rfl) _

theorem report (fault : Fault) :
    Mirrors view (Run.report settings fault) (Run.report settings' fault) :=
  .ite (V.logError _) (V.write (.inr rfl) _)

theorem attempt {action image : Run Unit} (h : Mirrors view action image) :
    Mirrors view (Run.attempt settings action) (Run.attempt settings' image) := by
  constructor
  intro state
  rw [Run.attempt, Run.attempt, run_tryCatch, run_tryCatch, h.run_eq state]
  cases action.run state with
  | mk result after =>
    cases result with
    | ok a => rfl
    | error stop =>
      cases stop with
      | fault fault => exact (V.report fault).run_eq after
      | endless => rfl

theorem optionalValue (node : Node) :
    Mirrors view (Run.optionalValue settings node) (Run.optionalValue settings' node) :=
  .ite (.pure _) (V.value node)

theorem change (operation : World → Outcome α) :
    Mirrors view (Run.change operation) (Run.change operation) := by
  constructor
  intro state
  rw [run_change, run_change, V.world_eq]
  exact congrArg (Prod.mk _) (V.set_world state _).symm

/-- A change of the world that depends on nothing else. -/
theorem modify (update : World → World) :
    Mirrors view (modify fun state => { state with world := update state.world } : Run Unit)
      (modify fun state => { state with world := update state.world }) := by
  constructor
  intro state
  rw [run_modify, run_modify, V.world_eq]
  exact congrArg (Prod.mk _) (V.set_world state _).symm

/-! ## Statements -/

theorem canvas (width height : Scalar) :
    Mirrors view (Run.canvas settings width height) (Run.canvas settings' width height) := by
  refine .bind (V.change _) fun dropped => .bind (V.emit _) fun _ => ?_
  split
  · exact V.notify _
  · exact .bind (V.emit _) fun _ => V.notify _

theorem recordOf (id : Scalar) : Mirrors view (Run.recordOf id) (Run.recordOf id) := by
  apply Mirrors.get_bind
  intro state
  rw [V.world_eq]
  split
  · exact .pure _
  · exact .throw _

theorem define (name : String) (node : Node) :
    Mirrors view (Run.define settings name node) (Run.define settings' name node) :=
  .bind (V.value node) fun value => .bind
    (V.modify fun world => { world with vars := world.vars.insert name value }) fun _ => V.emit _

theorem compute (node : Node) :
    Mirrors view (Run.compute settings node) (Run.compute settings' node) :=
  .bind (V.value node) fun _ => V.emit _

theorem spawn (id x y objectState : Node) :
    Mirrors view (Run.spawn settings id x y objectState)
      (Run.spawn settings' id x y objectState) := by
  refine .bind (V.value id) fun id => .bind (V.value x) fun x => .bind (V.value y) fun y => ?_
  refine .bind (V.value objectState) fun state => .bind (V.change _) fun evicted => ?_
  refine .bind (V.recordOf id) fun object => ?_
  split
  · exact .bind (V.emit _) fun _ => V.notify _
  · exact .bind (V.emit _) fun _ => .bind (V.emit _) fun _ => V.notify _

theorem despawn (id : Node) :
    Mirrors view (Run.despawn settings id) (Run.despawn settings' id) :=
  .bind (V.value id) fun _ => .bind (V.change _) fun _ => .bind (V.emit _) fun _ => V.notify _

theorem move (id x y : Node) (direction : Scalar) (objectState : Node) (swap : Scalar) :
    Mirrors view (Run.move settings id x y direction objectState swap)
      (Run.move settings' id x y direction objectState swap) := by
  refine .bind (V.value id) fun id => .bind (V.optionalValue x) fun x => ?_
  refine .bind (V.optionalValue y) fun y => .bind (V.optionalValue objectState) fun state => ?_
  refine .bind (V.change _) fun moved => .bind (V.recordOf id) fun object => ?_
  exact .bind (V.emit _) fun _ => V.notify _

theorem wait (duration : Scalar) : Mirrors view (Run.wait duration) (Run.wait duration) :=
  .bind (.ofExcept _) fun _ => .ite (V.emit _) (.throw _)

theorem spatialCondition (left relation : Scalar) (right : Node) :
    Mirrors view (Run.spatialCondition settings left relation right)
      (Run.spatialCondition settings' left relation right) := by
  refine .bind (V.value right) fun right => .get_bind fun state => ?_
  rw [V.world_eq]
  split
  · exact .pure _
  · exact .ite (.bind (V.logError _) fun _ => .pure _) (.throw _)

/-! ## Runs from start to end -/

theorem round (label : String) (delay : Scalar) {body image : Run Unit}
    (h : Mirrors view body image) (index : ℕ) :
    Mirrors view (Batch.round label delay body index) (Batch.round label delay image index) :=
  .bind (V.emit _) fun _ => .bind h fun _ => V.emit _

theorem loop (options : BatchOptions) (delay count : Scalar) {body image : Run Unit}
    (h : Mirrors view body image) :
    Mirrors view (Batch.loop options delay count body)
      (Batch.loop options delay count image) := by
  rw [Batch.loop, Batch.loop]
  apply Mirrors.ite
  · apply Mirrors.bind (.ofExcept _)
    intro times
    cases times with
    | none => exact .bind (V.round _ _ h 0) fun _ => .throw _
    | some limit => exact .bind (.iterate (V.round _ _ h) 0 limit) fun _ => V.emit _
  · exact .bind (.ofExcept _) fun rounds => .iterate (V.round _ _ h) 0 rounds

theorem condition (left : Node) (relation : Scalar) (right : Node) (key : Scalar) :
    Mirrors view (Batch.condition settings left relation right key)
      (Batch.condition settings' left relation right key) := by
  apply Mirrors.bind (V.value left)
  intro left
  apply Mirrors.ite
  · refine .ite (.get_bind fun state => ?_) (.bind (.throw _) fun _ => .get_bind fun state => ?_)
    all_goals
      rw [V.world_eq]
      exact .pure _
  · exact .bind (V.spatialCondition _ _ _) fun _ => .pure _

theorem branch (left : Node) (relation : Scalar) (right : Node) (key : Scalar)
    {whenTrue trueImage whenFalse falseImage : Run Unit} (htrue : Mirrors view whenTrue trueImage)
    (hfalse : Mirrors view whenFalse falseImage) :
    Mirrors view (Batch.branch settings left relation right key whenTrue whenFalse)
      (Batch.branch settings' left relation right key trueImage falseImage) :=
  .bind (V.condition left relation right key) fun _ => .bind (V.emit _) fun _ => .ite htrue hfalse

theorem assign {jump image : String → Scalar → Run Unit}
    (hjump : ∀ key value, Mirrors view (jump key value) (image key value)) (key : String)
    (node : Node) :
    Mirrors view (Batch.assign settings jump key node) (Batch.assign settings' image key node) :=
  .bind (V.value node) fun value => .bind
    (V.modify fun world => { world with assignments := world.assignments.insert key value })
    fun _ => .bind (V.emit _) fun _ => hjump _ _

end Actions

variable (options : BatchOptions)

mutual

/-- A statement on the view of a state, given that the jumps it may make mirror each other. -/
theorem statement (V : IsView settings settings' view) {jump image : String → Scalar → Run Unit}
    (hjump : ∀ key value, Mirrors view (jump key value) (image key value)) (node : Node) :
    Mirrors view (Batch.statement settings options jump node)
      (Batch.statement settings' options image node) := by
  cases node with
  | canvas width height =>
    rw [Batch.statement, Batch.statement]
    exact V.attempt (V.canvas width height)
  | loop delay count body =>
    rw [Batch.statement, Batch.statement]
    exact V.attempt (V.loop options delay count (block V hjump body))
  | branch left relation right key whenTrue whenFalse =>
    rw [Batch.statement, Batch.statement]
    exact V.attempt (V.branch left relation right key (block V hjump whenTrue)
      (block V hjump whenFalse))
  | assign key node =>
    rw [Batch.statement, Batch.statement]
    exact V.attempt (V.assign hjump key node)
  | define name node => exact V.attempt (V.define name node)
  | compute node => exact V.attempt (V.compute node)
  | spawn id x y state => exact V.attempt (V.spawn id x y state)
  | despawn id => exact V.attempt (V.despawn id)
  | move id x y direction state swap => exact V.attempt (V.move id x y direction state swap)
  | wait duration => exact V.attempt (V.wait duration)
  | _ => exact .bind (.ofExcept _) fun _ => V.logError _

theorem block (V : IsView settings settings' view) {jump image : String → Scalar → Run Unit}
    (hjump : ∀ key value, Mirrors view (jump key value) (image key value)) (nodes : List Node) :
    Mirrors view (Batch.block settings options jump nodes)
      (Batch.block settings' options image nodes) := by
  cases nodes with
  | nil =>
    rw [Batch.block, Batch.block]
    exact .pure ()
  | cons node rest =>
    rw [Batch.block, Batch.block]
    exact .bind (statement V hjump node) fun _ => block V hjump rest

end

/-- A jump on the view of a state: the jumps made in it have fewer idle keys. -/
theorem jump (V : IsView settings settings' view) (program : List Node) (idle : List String)
    (key : String) (value : Scalar) :
    Mirrors view (Batch.jump settings options program idle key value)
      (Batch.jump settings' options program idle key value) := by
  induction hlength : idle.length using Nat.strong_induction_on generalizing idle key value with
  | _ n ih =>
    subst hlength
    rw [Batch.jump, Batch.jump]
    split
    · next hkey =>
      apply Mirrors.forM
      rintro ⟨left, whenTrue⟩
      apply Mirrors.bind (V.value left)
      intro id
      refine .ite (.bind (V.emit _) fun _ => V.block options ?_ whenTrue) (.pure _)
      intro key' value'
      exact ih _ (Batch.length_without_lt hkey) _ key' value' rfl
    · exact V.logError _

/-- **A run from start to end on the view of a state** mirrors the run on the state. -/
theorem mirrors_run (V : IsView settings settings' view) (program : List Node) :
    Mirrors view (Batch.run settings options program) (Batch.run settings' options program) :=
  V.block options (V.jump options program _) program

end IsView

end TileScript.Run
