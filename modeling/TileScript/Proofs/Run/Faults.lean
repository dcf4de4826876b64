import TileScript.Proofs.Run.Consistent
import TileScript.Proofs.World.Faults

/-!
# What runs make of faults on the board

A statement that changes the board evaluates its values, asks for the change, and reports what was
done. If the change fails, then nothing of the statement remains but the lines of the evaluation and
one line for the fault, and the world is as it was. A condition on two objects is evaluated, told,
and chooses a block.

The line for a fault of a value has the mark of the run. The one other fault, that of an integer
beyond all floating point numbers, is logged with its kind, and a condition that meets it chooses no
block.

## Main definitions

* `Run.faultLine`: the line in which a fault is logged.
* `Run.boardStatement?`: the statements that change the board, and the changes they ask for.
* `Run.LogsFault`: a statement whose change fails only logs the fault.
* `Run.Chooses`: a condition chooses a block, unless a value cannot be converted.

## Main statements

* `World.Reachable.sized`: worlds that runs can make have a size that can be converted.
* `World.faults_of_boards`: the faults of changes and relations, and what runs make of them.
-/

namespace TileScript

namespace Run

variable {α : Type} {settings : Settings} {state after : RunState} {fault : Fault}

/-- The line in which a fault is logged. -/
def faultLine (settings : Settings) (fault : Fault) : String :=
  if fault.kind = .value then settings.faultMark ++ " " ++ fault.message
  else "Interpreter Error: " ++ fault.kind.name ++ ": " ++ fault.message

theorem run_report (settings : Settings) (fault : Fault) (state : RunState) :
    (report settings fault).run state =
      (.ok (), state.write .fault (faultLine settings fault)) := by
  rw [report, faultLine]
  split <;> rfl

theorem run_attempt_of_fault {action : Run Unit}
    (h : action.run state = (.error (.fault fault), after)) :
    (attempt settings action).run state =
      (.ok (), after.write .fault (faultLine settings fault)) := by
  rw [attempt, run_tryCatch, h]
  exact run_report settings fault after

/-- An attempt depends on the action only through what it does. -/
theorem run_attempt_congr {action action' : Run Unit} {state' : RunState}
    (h : action.run state = action'.run state') :
    (attempt settings action).run state = (attempt settings action').run state' := by
  rw [attempt, attempt, run_tryCatch, run_tryCatch, h]

/-! ## Changes -/

/-- The statements that change the board: the change that each asks for once its values are known,
and what it does. -/
def boardStatement? (settings : Settings) : Node → Option (Run World.Edit × Run Unit)
  | .canvas width height => some (pure (.resize width height), canvas settings width height)
  | .spawn id x y objectState => some (do
      let id ← value settings id
      let x ← value settings x
      let y ← value settings y
      let objectState ← value settings objectState
      return .spawn id x y objectState,
    spawn settings id x y objectState)
  | .despawn id => some (do
      let id ← value settings id
      return .despawn id,
    despawn settings id)
  | .move id x y direction objectState swap => some (do
      let id ← value settings id
      let x ← optionalValue settings x
      let y ← optionalValue settings y
      let objectState ← optionalValue settings objectState
      return .move id direction x y objectState swap,
    move settings id x y direction objectState swap)
  | _ => none

/-- The request gives a change of the world as it is, and the action goes as far as the request does
and stops there if the change fails. -/
def Asks (request : Run World.Edit) (action : Run Unit) (state : RunState) : Prop :=
  ∃ edit asked, request.run state = (.ok edit, asked) ∧ asked.world = state.world ∧
    ∀ fault, state.world.outcome edit = .error fault →
      action.run state = (.error (.fault fault), asked)

namespace Asks

/-- Both begin by evaluating the same. -/
theorem bind {step : Run α} {request : α → Run World.Edit} {action : α → Run Unit} {a : α}
    (hstep : step.run state = (.ok a, after)) (hworld : after.world = state.world)
    (h : Asks (request a) (action a) after) :
    Asks (step >>= request) (step >>= action) state := by
  obtain ⟨edit, asked, hrequest, hasked, haction⟩ := h
  refine ⟨edit, asked, ?_, hasked.trans hworld, fun fault hfault => ?_⟩
  · rw [run_bind, hstep]
    exact hrequest
  · rw [run_bind, hstep]
    exact haction fault (hworld ▸ hfault)

theorem bind_value {node : Node} {request : Scalar → Run World.Edit} {action : Scalar → Run Unit}
    (h : Asks (request (valueOf settings node state)) (action (valueOf settings node state))
      (evaluated settings node state)) :
    Asks (value settings node >>= request) (value settings node >>= action) state :=
  bind (run_value settings node state) rfl h

theorem bind_optionalValue {node : Node} {request : Scalar → Run World.Edit}
    {action : Scalar → Run Unit}
    (h : ∀ value after, after.world = state.world → Asks (request value) (action value) after) :
    Asks (optionalValue settings node >>= request) (optionalValue settings node >>= action)
      state := by
  rw [optionalValue]
  split
  · exact bind rfl rfl (h .null state rfl)
  · exact bind_value (h _ _ rfl)

/-- Then the change is made and stops if it fails. -/
theorem change {operation : World → Outcome α} {rest : α → Run Unit} (edit : World.Edit)
    (H : state.world.Sound) (hworld : (operation state.world).1 = state.world.edit edit)
    (houtcome : (operation state.world).2.map (fun _ => ()) = state.world.outcome edit) :
    Asks (pure edit) (Run.change operation >>= rest) state := by
  refine ⟨edit, state, rfl, rfl, fun fault hfault => ?_⟩
  rw [run_bind, run_change, hworld, H.edit_of_error hfault]
  rw [hfault] at houtcome
  cases hresult : (operation state.world).2 with
  | ok a => rw [hresult] at houtcome; cases houtcome
  | error cause =>
    rw [hresult] at houtcome
    obtain rfl := Except.error.inj houtcome
    rfl

end Asks

/-- The statements that change the board ask for their changes. -/
theorem asks_boardStatement {node : Node} {request : Run World.Edit} {action : Run Unit}
    (h : boardStatement? settings node = some (request, action)) (H : state.world.Sound) :
    Asks request action state := by
  cases node with
  | canvas width height =>
    obtain ⟨rfl, rfl⟩ := Prod.mk.inj (Option.some.inj h)
    exact .change _ H rfl rfl
  | spawn id x y objectState =>
    obtain ⟨rfl, rfl⟩ := Prod.mk.inj (Option.some.inj h)
    exact .bind_value (.bind_value (.bind_value (.bind_value (.change _ H rfl rfl))))
  | despawn id =>
    obtain ⟨rfl, rfl⟩ := Prod.mk.inj (Option.some.inj h)
    exact .bind_value (.change _ H rfl rfl)
  | move id x y direction objectState swap =>
    obtain ⟨rfl, rfl⟩ := Prod.mk.inj (Option.some.inj h)
    -- A value that is not given is not evaluated, so the states in between are not known.
    refine .bind_value (.bind_optionalValue fun x state hx => .bind_optionalValue fun y state hy =>
      .bind_optionalValue fun objectState state hstate => .change _ ?_ rfl rfl)
    rw [hstate, hy, hx]
    exact H
  | _ => cases h

/-- The statement asks for a change, and if the change fails, then of the statement remain what was
evaluated and the line of the fault. -/
def LogsFault (settings : Settings) (request : Run World.Edit) (statement : Run Unit)
    (state : RunState) : Prop :=
  ∃ edit asked, request.run state = (.ok edit, asked) ∧ asked.world = state.world ∧
    ∀ fault, state.world.outcome edit = .error fault →
      statement.run state = (.ok (), asked.write .fault (faultLine settings fault))

theorem Asks.logsFault {request : Run World.Edit} {action : Run Unit}
    (h : Asks request action state) (settings : Settings) :
    LogsFault settings request (attempt settings action) state := by
  obtain ⟨edit, asked, hrequest, hworld, haction⟩ := h
  refine ⟨edit, asked, hrequest, hworld, fun fault hfault => ?_⟩
  exact run_attempt_of_fault (haction fault hfault)

/-! ## Conditions -/

/-- The line that tells of a condition. -/
def conditionLine (relation : String) (holds : Bool) : String :=
  "If condition (" ++ relation ++ ") is " ++ truthText holds

theorem line?_conditionLine (relation : String) (holds : Bool) :
    Scalar.line? (.text "If condition (" :: [.text relation] ++
      [.text ") is ", .text (truthText holds)]) = some (conditionLine relation holds) := by
  change _ = some ("If condition (" ++ relation ++ ") is " ++ truthText holds)
  simp [Scalar.line?, Scalar.display?, String.join, String.append_assoc]

/-- The state once both sides of a condition are evaluated. -/
def tested (settings : Settings) (left right : Node) (state : RunState) : RunState :=
  evaluated settings right (evaluated settings left state)

/-- A condition between the values of two expressions is found to hold or not and told, and then the
block for it runs; but if a value that is looked at cannot be converted, the fault is logged, and
neither block runs. -/
def Chooses (settings : Settings) (relation : String) (left right : Node)
    (tell : Bool → RunState → RunState) (whenTrue whenFalse statement : Run Unit)
    (state : RunState) : Prop :=
  let a := valueOf settings left state
  let b := valueOf settings right (evaluated settings left state)
  (World.RelationOverflows a relation b ∧ statement.run state =
    (.ok (), (tested settings left right state).write .fault
      (faultLine settings .tooLargeForFloat))) ∨
  (¬World.RelationOverflows a relation b ∧ ∃ holds,
    state.world.relationHolds a relation b = .ok holds ∧
    statement.run state = (attempt settings (if holds then whenTrue else whenFalse)).run
      (tell holds (tested settings left right state)))

/-- A condition that is no matter of keys: the two sides are evaluated, and the relation is looked
at. -/
def relationCondition (settings : Settings) (left : Node) (relation : String) (right : Node) :
    Run (Bool × List Scalar) := do
  let left ← value settings left
  let holds ← spatialCondition settings left relation right
  return (holds, [.text relation])

theorem run_relationCondition (settings : Settings) (left : Node) (relation : String)
    (right : Node) (state : RunState) :
    (relationCondition settings left relation right).run state =
      match state.world.relationHolds (valueOf settings left state) relation
        (valueOf settings right (evaluated settings left state)) with
      | .ok holds => (.ok (holds, [.text relation]), tested settings left right state)
      | .error fault =>
        if fault.kind = .value then
          (.ok (false, [.text relation]), (tested settings left right state).write .fault
            (settings.faultMark ++ " " ++ fault.message))
        else (.error (.fault fault), tested settings left right state) := by
  have hworld : (tested settings left right state).world = state.world := rfl
  rw [relationCondition, run_bind, run_value]
  dsimp only
  rw [run_bind, spatialCondition, run_bind, run_value]
  dsimp only
  rw [run_get_bind, ← tested, hworld]
  cases state.world.relationHolds (valueOf settings left state) relation
    (valueOf settings right (evaluated settings left state)) with
  | ok holds => rfl
  | error fault =>
    -- The fault of a value makes the condition false; any other one leaves the statement.
    by_cases hkind : fault.kind = .value
    · simp only [if_pos hkind]
      rfl
    · simp only [if_neg hkind]
      rfl

/-- A branch on a relation chooses, in whatever way it tells of its condition. -/
theorem chooses_branch (H : state.world.Sound) {relation : String}
    (hrelation : relation ∈ World.relationNames) (left right : Node)
    {say : Bool × List Scalar → Run Unit} {tell : Bool → RunState → RunState}
    (hsay : ∀ holds state, (say (holds, [.text relation])).run state = (.ok (), tell holds state))
    (whenTrue whenFalse : Run Unit) :
    Chooses settings relation left right tell whenTrue whenFalse
      (attempt settings (do
        let chosen ← relationCondition settings left relation right
        say chosen
        if chosen.1 then whenTrue else whenFalse)) state := by
  have hrun := run_relationCondition settings left relation right state
  rcases H.relationHolds_cases hrelation (valueOf settings left state)
    (valueOf settings right (evaluated settings left state)) with
    ⟨hlarge, hfault⟩ | ⟨hfits, holds, hholds⟩
  · refine .inl ⟨hlarge, run_attempt_of_fault ?_⟩
    rw [hfault] at hrun
    rw [run_bind, hrun]
    rfl
  · refine .inr ⟨hfits, holds, hholds, run_attempt_congr ?_⟩
    rw [hholds] at hrun
    rw [run_bind, hrun]
    dsimp only
    rw [run_bind, hsay]

/-- Tells of a condition in a run from start to end. -/
def reported (relation : String) (holds : Bool) (state : RunState) : RunState :=
  state.write .report (conditionLine relation holds)

/-- Tells of a condition in a run tick by tick, if that is traced. -/
def traced (settings : Settings) (relation : String) (holds : Bool) (state : RunState) : RunState :=
  if settings.debug then
    state.write .trace (settings.traceMark ++ " " ++ conditionLine relation holds)
  else state

theorem ne_assigned {relation : String} (h : relation ∈ World.relationNames) :
    ¬(Scalar.text relation).same "assigned" = true := by
  simp only [World.relationNames, List.mem_cons, List.not_mem_nil, or_false] at h
  rcases h with rfl | rfl | rfl | rfl | rfl | rfl
  all_goals decide

end Run

open Run

section

variable {settings : Settings} {node : Node} {request : Run World.Edit} {action : Run Unit}
  (h : boardStatement? settings node = some (request, action))
include h

theorem Batch.statement_of_board {options : BatchOptions} {jump : String → Scalar → Run Unit} :
    statement settings options jump node = attempt settings action := by
  cases node <;> cases h <;> rfl

theorem Stepwise.statement_of_board (hplain : (plain? settings node).isSome = true)
    {program : List Node} : statement settings program node = attempt settings action := by
  cases node with
  | canvas => cases hplain
  | _ => cases h <;> rfl

theorem Stepwise.setupStatement_of_board (hsetup : (setup? settings node).isSome = true) :
    setupStatement settings node = attempt settings action := by
  cases node with
  | despawn | move => cases hsetup
  | _ => cases h <;> rfl

end

theorem Batch.condition_eq {relation : String} (h : relation ∈ World.relationNames)
    (settings : Settings) (left right : Node) (key : Scalar) :
    condition settings left relation right key =
      relationCondition settings left relation right := by
  simp only [condition, if_neg (ne_assigned h)]
  rfl

theorem Stepwise.condition_eq {relation : String} (h : relation ∈ World.relationNames)
    (settings : Settings) (program : List Node) (left right : Node) (key : Scalar) :
    condition settings program left relation right key =
      relationCondition settings left relation right := by
  simp only [condition, if_neg (ne_assigned h)]
  rfl

theorem Batch.chooses_statement {state : RunState} (H : state.world.Sound) {relation : String}
    (h : relation ∈ World.relationNames) (settings : Settings) (options : BatchOptions)
    (jump : String → Scalar → Run Unit) (left right : Node) (key : Scalar)
    (whenTrue whenFalse : List Node) :
    Chooses settings relation left right (reported relation)
      (block settings options jump whenTrue) (block settings options jump whenFalse)
      (statement settings options jump (.branch left relation right key whenTrue whenFalse))
      state := by
  rw [statement, branch, condition_eq h]
  refine chooses_branch H h left right (fun holds state => ?_) _ _
  rw [emit_eq (line?_conditionLine relation holds)]
  rfl

theorem Stepwise.chooses_statement {state : RunState} (H : state.world.Sound) {relation : String}
    (h : relation ∈ World.relationNames) (settings : Settings) (program : List Node)
    (left right : Node) (key : Scalar) (whenTrue whenFalse : List Node) :
    Chooses settings relation left right (traced settings relation)
      (block settings program whenTrue) (block settings program whenFalse)
      (statement settings program (.branch left relation right key whenTrue whenFalse)) state := by
  rw [statement, branch, condition_eq h]
  refine chooses_branch H h left right (fun holds state => ?_) _ _
  rw [trace_eq settings (line?_conditionLine relation holds), traced]
  split <;> rfl

/-! ## Worlds of runs -/

namespace World

theorem Sized.bindings {world : World} (H : world.Sized) (vars assignments : Table String Scalar) :
    ({ world with vars, assignments } : World).Sized :=
  ⟨H.sound.bindings vars assignments, H.width, H.height⟩

theorem Reachable.sized {world : World} (h : world.Reachable) : world.Sized := by
  induction h with
  | empty => exact sized_empty
  | edit edit _ ih => exact ih.edit edit
  | bindings vars assignments _ ih => exact ih.bindings vars assignments

/-- **Faults on the board.** In every reachable world and with any values, a change succeeds or has
the fault of a value, and a relation holds or does not hold, except that an argument which is looked
at and is an integer beyond all floating point numbers is a fault of its own. In runs of both kinds,
a statement whose change fails only logs the fault, and a condition on a relation runs one of its
two blocks; a condition that meets that one fault runs neither. -/
theorem faults_of_boards {state : RunState} (H : state.world.Reachable) :
    (∀ edit, SoftUnless (state.world.Overflows edit) (state.world.outcome edit)) ∧
    (∀ relation ∈ relationNames, ∀ left right,
      (RelationOverflows left relation right ∧
        state.world.relationHolds left relation right = .error .tooLargeForFloat) ∨
      (¬RelationOverflows left relation right ∧
        ∃ holds, state.world.relationHolds left relation right = .ok holds)) ∧
    (∀ settings node request action, boardStatement? settings node = some (request, action) →
      (∀ options jump,
        LogsFault settings request (Batch.statement settings options jump node) state) ∧
      ((plain? settings node).isSome = true → ∀ program,
        LogsFault settings request (Stepwise.statement settings program node) state) ∧
      ((Stepwise.setup? settings node).isSome = true →
        LogsFault settings request (Stepwise.setupStatement settings node) state)) ∧
    ∀ settings, ∀ relation ∈ relationNames, ∀ left right key whenTrue whenFalse,
      (∀ options jump, Chooses settings relation left right (reported relation)
        (Batch.block settings options jump whenTrue) (Batch.block settings options jump whenFalse)
        (Batch.statement settings options jump
          (.branch left relation right key whenTrue whenFalse)) state) ∧
      ∀ program, Chooses settings relation left right (traced settings relation)
        (Stepwise.block settings program whenTrue) (Stepwise.block settings program whenFalse)
        (Stepwise.statement settings program
          (.branch left relation right key whenTrue whenFalse)) state := by
  have hsound := H.sound
  refine ⟨H.sized.softUnless_outcome,
    fun relation hrelation => hsound.relationHolds_cases hrelation,
    fun settings node request action hnode => ?_,
    fun settings relation hrelation left right key whenTrue whenFalse => ⟨?_, ?_⟩⟩
  · have hlogs := (asks_boardStatement hnode hsound).logsFault settings
    refine ⟨fun options jump => ?_, fun hplain program => ?_, fun hsetup => ?_⟩
    · rwa [Batch.statement_of_board hnode]
    · rwa [Stepwise.statement_of_board hnode hplain]
    · rwa [Stepwise.setupStatement_of_board hnode hsetup]
  · exact fun options jump => Batch.chooses_statement hsound hrelation settings options jump left
      right key whenTrue whenFalse
  · exact fun program => Stepwise.chooses_statement hsound hrelation settings program left right key
      whenTrue whenFalse

/-- An integer beyond all floating point numbers. -/
def hugeId : ℤ := 10 ^ 309

/-- A condition that looks at such an integer, with a block for either case. -/
def hugeBranch : Node :=
  .branch (.number (.int hugeId)) "on" (.number (.int 1)) .null [.wait (.int 1)] [.wait (.int 2)]

/-- With such an integer the changes and the relations do not have the fault of a value, and neither
block of the condition runs. -/
theorem faults_of_hugeId :
    empty.outcome (.despawn (.int hugeId)) = .error .tooLargeForFloat ∧
    empty.outcome (.resize (.int 1) (.int hugeId)) = .error .tooLargeForFloat ∧
    empty.relationHolds (.int hugeId) "on" (.int 1) = .error .tooLargeForFloat ∧
    Fault.tooLargeForFloat.kind ≠ .value ∧
    ((Batch.run (.batch false .absent fun _ => .null) {} [hugeBranch]).run (.start .empty)).2.log =
      #[⟨.fault, "Interpreter Error: OverflowError: int too large to convert to float"⟩] := by
  refine ⟨?_, ?_, ?_, ?_, ?_⟩
  all_goals decide +kernel

theorem faults_of_boards_swap :
    (swapEdits.foldl edit .empty).Reachable ∧
    (∃ fault, (swapEdits.foldl edit .empty).outcome (.despawn (.int 7)) = .error fault ∧
      fault.kind = .value) ∧
    (∃ holds, (swapEdits.foldl edit .empty).relationHolds (.int 1) "right" (.int 2) = .ok holds) ∧
    ∃ request, LogsFault (.stepwise false .absent fun _ => .null) request
      (Stepwise.statement (.stepwise false .absent fun _ => .null) [] (.despawn (.number (.int 7))))
      (.start (swapEdits.foldl edit .empty)) := by
  have hreachable := Reachable.empty.edits swapEdits
  have hfault : (swapEdits.foldl edit .empty).outcome (.despawn (.int 7)) =
      .error (.nothingToRemove (.int 7)) := by decide +kernel
  have hfits : (Scalar.int 1).FitsFloat ∧ (Scalar.int 2).FitsFloat := by decide +kernel
  -- From here on nothing depends on which world it is.
  generalize swapEdits.foldl edit .empty = world at hreachable hfault ⊢
  obtain ⟨hchanges, hrelations, hstatements, -⟩ :=
    faults_of_boards (show (RunState.start world).world.Reachable from hreachable)
  refine ⟨hreachable, ⟨_, hfault, ((hchanges _).soft _ hfault).resolve_left nofun⟩, ?_, _,
    (hstatements _ _ _ _ rfl).2.1 rfl []⟩
  rcases hrelations "right" (by decide) (.int 1) (.int 2) with ⟨hlarge, -⟩ | ⟨-, hholds⟩
  · exact absurd hlarge (by simp [RelationOverflows, hfits])
  · exact hholds

end World

end TileScript
