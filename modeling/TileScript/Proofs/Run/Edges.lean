import TileScript.Proofs.Program.RoundTrip
import TileScript.Proofs.Run.Invariants

/-!
# Interrupts at the edges of keys

A host drives a run tick by tick and supplies values of keys. No statement that runs in a tick binds
a key, so the values of the keys are those of the setup, updated by what the host has supplied. A
key interrupts in the tick in which it becomes pressed, and not again while it is held down.

The interrupts of a tick are described by what they do in turn. Every bound id is evaluated when the
turn of its key begins, and every condition is tested when it is reached, so that the blocks that
run before it count.

## Main definitions

* `IsPressed`, `edgeKeys`: the keys that are held down, and those that have just become so.
* `Stepwise.Visits`, `Stepwise.Turn`, `Stepwise.Serves`: what the interrupts of a tick do.
* `Session.afterTicks`, `Session.valuesAt`, `Session.edgesAt`: sessions, values and edges tick by
  tick.

## Main statements

* `Session.edges_of_parseSource`: the values and the interrupts of every tick.
-/

namespace TileScript

open Run

/-! ## Values of keys -/

/-- The key is held down: its value is one. -/
def IsPressed (values : Table String Scalar) (key : String) : Prop :=
  (values.get? key).any (·.same pressed) = true

theorem isPressed_iff {values : Table String Scalar} {key : String} :
    IsPressed values key ↔ ∃ value, values.get? key = some value ∧ value.same pressed = true := by
  simp [IsPressed, Option.any_eq_true]

/-- The keys that are held down and were not before, in their order. -/
def edgeKeys (previous values : Table String Scalar) : List String :=
  (values.entries.filter fun entry => Stepwise.isEdge previous entry.1 entry.2).map (·.1)

/-- The keys of the table are distinct and their values can be written. -/
structure Table.Legible (values : Table String Scalar) : Prop where
  keyed : values.Keyed fun _ => True
  written : ∀ entry ∈ values.entries, entry.2.Written

namespace Table.Legible

variable {values inputs : Table String Scalar}

theorem empty : (Table.empty : Table String Scalar).Legible := ⟨.empty, by simp [Table.empty]⟩

theorem insert (H : values.Legible) (key : String) {value : Scalar} (h : value.Written) :
    (values.insert key value).Legible := by
  refine ⟨H.keyed.insert Key.exact_string trivial value, fun entry hentry => ?_⟩
  rcases (H.keyed.mem_insert Key.exact_string trivial).mp hentry with rfl | ⟨hentry, -⟩
  · exact h
  · exact H.written entry hentry

theorem update (H : values.Legible) (h : ∀ entry ∈ inputs.entries, entry.2.Written) :
    (values.update inputs).Legible := by
  obtain ⟨entries⟩ := inputs
  rw [Table.update]
  induction entries generalizing values with
  | nil => exact H
  | cons entry entries ih =>
    obtain ⟨hentry, hentries⟩ := List.forall_mem_cons.mp h
    exact ih (H.insert entry.1 hentry) hentries

theorem written_get? (H : values.Legible) {key : String} {value : Scalar}
    (h : values.get? key = some value) : value.Written :=
  H.written _ ((H.keyed.get?_eq_some_iff Key.exact_string trivial).mp h)

/-- A key that is held down stays so unless it is given another value. -/
theorem exists_mem_of_update (H : values.Legible)
    (hwritten : ∀ entry ∈ inputs.entries, entry.2.Written) {key : String}
    (hbefore : IsPressed values key) (hafter : ¬ IsPressed (values.update inputs) key) :
    ∃ value, (key, value) ∈ inputs.entries ∧ value.same pressed = false := by
  obtain ⟨entries⟩ := inputs
  rw [Table.update] at hafter
  induction entries generalizing values with
  | nil => exact absurd hbefore hafter
  | cons entry entries ih =>
    obtain ⟨hentry, hentries⟩ := List.forall_mem_cons.mp hwritten
    by_cases hstill : IsPressed (values.insert entry.1 entry.2) key
    · obtain ⟨value, hvalue, hother⟩ := ih (H.insert entry.1 hentry) hstill hentries hafter
      exact ⟨value, List.mem_cons_of_mem _ hvalue, hother⟩
    · rw [IsPressed, H.keyed.get?_insert Key.exact_string trivial trivial] at hstill
      split at hstill
      · next heq =>
        subst heq
        exact ⟨entry.2, List.mem_cons_self, by simpa using hstill⟩
      · exact absurd hbefore hstill

theorem mem_edgeKeys_iff (H : values.Legible) {previous : Table String Scalar} {key : String} :
    key ∈ edgeKeys previous values ↔ IsPressed values key ∧ ¬ IsPressed previous key := by
  rw [edgeKeys, List.mem_map]
  constructor
  · rintro ⟨⟨key, value⟩, hentry, rfl⟩
    obtain ⟨hmem, hedge⟩ := List.mem_filter.mp hentry
    rw [Stepwise.isEdge, Bool.and_eq_true, Bool.not_eq_true'] at hedge
    refine ⟨?_, by simp [IsPressed, hedge.2]⟩
    rw [IsPressed, (H.keyed.get?_eq_some_iff Key.exact_string trivial).mpr hmem]
    exact hedge.1
  · rintro ⟨hpressed, hreleased⟩
    obtain ⟨value, hvalue, hsame⟩ := isPressed_iff.mp hpressed
    have hmem := (H.keyed.get?_eq_some_iff Key.exact_string trivial).mp hvalue
    refine ⟨(key, value), List.mem_filter.mpr ⟨hmem, ?_⟩, rfl⟩
    rw [Stepwise.isEdge, hsame, Bool.true_and, Bool.not_eq_true']
    exact Bool.eq_false_iff.mpr hreleased

theorem nodup_edgeKeys (H : values.Legible) (previous : Table String Scalar) :
    (edgeKeys previous values).Nodup :=
  H.keyed.nodup.sublist (List.filter_sublist.map _)

end Table.Legible

/-! ## What interrupts do -/

namespace Run

/-- The values of expressions that are evaluated one after the other, and the state after it. -/
def evaluatedAll (settings : Settings) : List Node → RunState → List Scalar × RunState
  | [], state => ([], state)
  | node :: rest, state =>
    let after := evaluatedAll settings rest (evaluated settings node state)
    (valueOf settings node state :: after.1, after.2)

theorem run_mapM_value (settings : Settings) (nodes : List Node) (state : RunState) :
    (nodes.mapM (value settings)).run state =
      (.ok (evaluatedAll settings nodes state).1, (evaluatedAll settings nodes state).2) := by
  induction nodes generalizing state with
  | nil => rfl
  | cons node rest ih =>
    rw [List.mapM_cons, run_bind, run_value]
    dsimp only
    rw [run_bind, ih]
    rfl

theorem written_evaluatedAll (settings : Settings) {nodes : List Node}
    (h : ∀ node ∈ nodes, node.isExpression = true) (state : RunState) :
    ∀ value ∈ (evaluatedAll settings nodes state).1, value.Written := by
  induction nodes generalizing state with
  | nil => simp [evaluatedAll]
  | cons node rest ih =>
    obtain ⟨hnode, hrest⟩ := List.forall_mem_cons.mp h
    exact List.forall_mem_cons.mpr ⟨written_valueOf settings hnode state, ih hrest _⟩

end Run

namespace Stepwise

variable {settings : Settings} {program : List Node} {key : String}

/-- Going through conditions, each with the id that it is tested for. What names the object of a
condition is evaluated when the condition is reached. If it is that id, then the block runs to its
end, and the next condition is reached in the state after it. -/
inductive Visits (settings : Settings) (program : List Node) (key : String) :
    List (Scalar × Node × List Node) → RunState → RunState → Prop
  | nil (state : RunState) : Visits settings program key [] state state
  | fire {bound : Scalar} {left : Node} {whenTrue : List Node}
      {rest : List (Scalar × Node × List Node)} {state traced fired after : RunState}
      (hsame : (valueOf settings left state).same bound = true)
      (htrace : (trace settings
        ["Interrupt: running true block of if assigned ", key, " for id=", bound]).run
          (evaluated settings left state) = (.ok (), traced))
      (hblock : (block settings program whenTrue).run traced = (.ok (), fired))
      (hrest : Visits settings program key rest fired after) :
      Visits settings program key ((bound, left, whenTrue) :: rest) state after
  | pass {bound : Scalar} {left : Node} {whenTrue : List Node}
      {rest : List (Scalar × Node × List Node)} {state after : RunState}
      (hsame : (valueOf settings left state).same bound = false)
      (hrest : Visits settings program key rest (evaluated settings left state) after) :
      Visits settings program key ((bound, left, whenTrue) :: rest) state after

/-- The turn of a key: the ids bound to it are evaluated, and then every condition that tests the
key is tested for each of them, in the order of the program. -/
def Turn (settings : Settings) (program : List Node) (key : String) (state after : RunState) :
    Prop :=
  ∃ traced, (trace settings ["Key press edge detected: ", key]).run state = (.ok (), traced) ∧
    Visits settings program key
      ((evaluatedAll settings (boundNodes program key) traced).1.flatMap fun bound =>
        (watchers program key).map fun watcher => (bound, watcher))
      (evaluatedAll settings (boundNodes program key) traced).2 after

/-- Keys have their turns one after the other. -/
inductive Serves (settings : Settings) (program : List Node) :
    List String → RunState → RunState → Prop
  | nil (state : RunState) : Serves settings program [] state state
  | cons {key : String} {rest : List String} {state middle after : RunState}
      (hturn : Turn settings program key state middle)
      (hrest : Serves settings program rest middle after) :
      Serves settings program (key :: rest) state after

theorem Visits.append {first second : List (Scalar × Node × List Node)}
    {state middle after : RunState} (h : Visits settings program key first state middle)
    (h' : Visits settings program key second middle after) :
    Visits settings program key (first ++ second) state after := by
  induction h with
  | nil => exact h'
  | fire hsame htrace hblock _ ih => exact .fire hsame htrace hblock (ih h')
  | pass hsame _ ih => exact .pass hsame (ih h')

/-! ## Ticks -/

/-- What holds of the values of keys is left alone by changes of the world. -/
theorem robust_assignments (P : Table String Scalar → Prop) :
    Robust fun state => P state.world.assignments where
  write _ _ h := h
  drawn _ h := h
  events _ h := h
  edit {state} edit h := by
    rw [(state.world.bindings_edit edit).2]
    exact h

/-- No statement of a block binds a key. -/
theorem invariant_assignments (settings : Settings) (P : Table String Scalar → Prop) :
    Run.Invariant settings (fun _ => True) fun state => P state.world.assignments :=
  (robust_assignments P).invariant fun {_ node} _ =>
    .bind ((robust_assignments P).completes_value settings node).maintains fun _ =>
      .bind (.modify fun _ h => h) fun _ => (robust_assignments P).maintains_emit _

/-- The keys have the given values. -/
def HasValues (values : Table String Scalar) (state : RunState) : Prop :=
  state.world.assignments = values

theorem robust_hasValues (values : Table String Scalar) : Robust (HasValues values) :=
  robust_assignments (· = values)

theorem invariant_hasValues (settings : Settings) (values : Table String Scalar) :
    Run.Invariant settings (fun _ => True) (HasValues values) :=
  invariant_assignments settings (· = values)

/-- The conditions that test a key for one id are visited to the end. -/
theorem exists_visits {bound : Scalar} (hbound : bound.Written)
    (watchers : List (Node × List Node)) (state : RunState) :
    ∃ after, (watchers.forM fun (left, whenTrue) => do
        let id ← value settings left
        if id.same bound then
          trace settings
            ["Interrupt: running true block of if assigned ", key, " for id=", bound]
          block settings program whenTrue).run state = (.ok (), after) ∧
      Visits settings program key (watchers.map fun watcher => (bound, watcher)) state after := by
  induction watchers generalizing state with
  | nil => exact ⟨state, rfl, .nil state⟩
  | cons watcher rest ih =>
    obtain ⟨left, whenTrue⟩ := watcher
    rw [run_forM_cons, run_bind, run_value]
    dsimp only
    cases hsame : (valueOf settings left state).same bound with
    | false =>
      obtain ⟨after, hrun, hvisits⟩ := ih (evaluated settings left state)
      exact ⟨after, hrun, .pass hsame hvisits⟩
    | true =>
      have hline : Completes (HasValues state.world.assignments) (trace settings
          ["Interrupt: running true block of if assigned ", key, " for id=", bound]) :=
        (robust_hasValues _).completes_trace settings (by simp [hbound])
      have hrun : Completes (HasValues state.world.assignments) (block settings program whenTrue) :=
        completes_block (invariant_hasValues settings _) hereditary_true whenTrue fun _ _ => trivial
      have hstate : HasValues state.world.assignments (evaluated settings left state) := rfl
      obtain ⟨_, traced, htrace, htraced⟩ := hline.exists_run _ hstate
      obtain ⟨_, fired, hblock, -⟩ := hrun.exists_run _ htraced
      obtain ⟨after, hrest, hvisits⟩ := ih fired
      refine ⟨after, ?_, .fire hsame htrace hblock hvisits⟩
      rw [if_pos rfl, run_bind, htrace]
      dsimp only
      rw [hblock]
      exact hrest

/-- All conditions that test a key are visited for every id. -/
theorem exists_visits_all {ids : List Scalar} (hids : ∀ bound ∈ ids, bound.Written)
    (state : RunState) :
    ∃ after, (ids.forM fun bound => (watchers program key).forM fun (left, whenTrue) => do
        let id ← value settings left
        if id.same bound then
          trace settings
            ["Interrupt: running true block of if assigned ", key, " for id=", bound]
          block settings program whenTrue).run state = (.ok (), after) ∧
      Visits settings program key
        (ids.flatMap fun bound => (watchers program key).map fun watcher => (bound, watcher))
        state after := by
  induction ids generalizing state with
  | nil => exact ⟨state, rfl, .nil state⟩
  | cons bound rest ih =>
    obtain ⟨hbound, hrest⟩ := List.forall_mem_cons.mp hids
    obtain ⟨middle, hfirst, hvisits⟩ := exists_visits hbound (watchers program key) state
    obtain ⟨after, hothers, hvisits'⟩ := ih hrest middle
    refine ⟨after, ?_, hvisits.append hvisits'⟩
    rw [run_forM_cons, hfirst]
    exact hothers

theorem isExpression_of_mem_boundNodes (hprogram : ∀ node ∈ program, node.isStatement = true)
    (key : String) :
    ∀ node ∈ boundNodes program key, node.isExpression = true := by
  intro bound hbound
  obtain ⟨node, hnode, hassign⟩ := List.mem_filterMap.mp hbound
  split at hassign
  · next name value =>
    rw [Option.ite_none_right_eq_some] at hassign
    obtain rfl : value = bound := Option.some.inj hassign.2
    have hstatement := hprogram _ hnode
    simp only [Node.isStatement, Node.isSimple, Bool.and_eq_true] at hstatement
    exact hstatement.2
  · cases hassign

/-- The turn of a key comes to its end. -/
theorem exists_turn (hprogram : ∀ node ∈ program, node.isStatement = true) (key : String)
    (state : RunState) :
    ∃ after, (interrupt settings program key).run state = (.ok (), after) ∧
      Turn settings program key state after := by
  have hline : Completes (fun _ => True) (trace settings ["Key press edge detected: ", key]) :=
    Quiet.completes_trace ⟨fun _ _ h => h, fun _ h => h⟩ settings (by simp)
  obtain ⟨_, traced, htrace, -⟩ := hline.exists_run state trivial
  have hids := written_evaluatedAll settings (isExpression_of_mem_boundNodes hprogram key)
    traced
  obtain ⟨after, hrun, hvisits⟩ := exists_visits_all hids
    (evaluatedAll settings (boundNodes program key) traced).2
  refine ⟨after, ?_, traced, htrace, hvisits⟩
  rw [interrupt, run_bind, htrace]
  dsimp only
  rw [boundIds, run_bind, run_mapM_value]
  exact hrun

/-- The interrupts of a tick serve the keys at their edges. -/
theorem exists_serves (settings : Settings)
    (hprogram : ∀ node ∈ program, node.isStatement = true) (previous : Table String Scalar)
    (state : RunState) :
    ∃ after, (interrupts settings program previous).run state = (.ok (), after) ∧
      Serves settings program (edgeKeys previous state.world.assignments) state after := by
  rw [interrupts, run_get_bind, edgeKeys]
  generalize state.world.assignments.entries = entries
  induction entries generalizing state with
  | nil => exact ⟨state, rfl, .nil state⟩
  | cons entry rest ih =>
    obtain ⟨key, value⟩ := entry
    rw [run_forM_cons, List.filter_cons]
    dsimp only
    cases isEdge previous key value with
    | false => exact ih state
    | true =>
      obtain ⟨middle, hfirst, hturn⟩ := exists_turn hprogram key state
      obtain ⟨after, hothers, hserves⟩ := ih middle
      refine ⟨after, ?_, .cons hturn hserves⟩
      rw [if_pos rfl, hfirst]
      exact hothers

/-- Values that can be written are taken, and nothing else in the world changes. -/
theorem exists_receive (settings : Settings) {values inputs : Table String Scalar}
    (H : values.Legible) (hinputs : ∀ entry ∈ inputs.entries, entry.2.Written) {state : RunState}
    (hstate : HasValues values state) :
    ∃ after, (receive settings inputs).run state = (.ok (), after) ∧
      after.world = { state.world with assignments := values.update inputs } := by
  have hquiet : Quiet fun after => after.world = state.world := ⟨fun _ _ h => h, fun _ h => h⟩
  have hreceive : Ensures (fun found => found.world = state.world) (receive settings inputs)
      (fun _ after => after.world = { state.world with assignments := values.update inputs })
      fun _ _ => False := by
    rw [receive]
    refine Ensures.bind (Completes.forM fun entry hentry => ⟨fun found hfound => ?_⟩) fun _ =>
      ⟨fun found hfound => ?_⟩
    · have hold : ((found.world.assignments.get? entry.1).getD .null).Written := by
        rw [hfound, hstate]
        cases hget : values.get? entry.1 with
        | none => exact Scalar.written_null
        | some value => exact H.written_get? hget
      rw [run_get_bind]
      dsimp only
      split
      · exact hfound
      · exact (hquiet.completes_trace settings (by simp [hold, hinputs entry hentry])).meets found
          hfound
    · rw [run_modify]
      change { found.world with assignments := found.world.assignments.update inputs } = _
      rw [hfound, hstate]
  obtain ⟨_, after, hrun, hafter⟩ := hreceive.exists_run state rfl
  exact ⟨after, hrun, hafter⟩

end Stepwise

namespace Session

variable {settings : Settings} {program : List Node} {session : Session}

/-- The session after the setup and the given number of ticks. -/
def afterTicks (session : Session) (inputs : ℕ → Table String Scalar) : ℕ → Session
  | 0 => session.setUp
  | tick + 1 => ((session.afterTicks inputs tick).step (inputs tick)).1

/-- The values of the keys after the setup, updated by what the host has supplied since. -/
def valuesAt (session : Session) (inputs : ℕ → Table String Scalar) : ℕ → Table String Scalar
  | 0 => session.setUp.state.world.assignments
  | tick + 1 => (session.valuesAt inputs tick).update (inputs tick)

/-- The values with which a tick compares those it has; there are none before the first tick. -/
def previousAt (session : Session) (inputs : ℕ → Table String Scalar) : ℕ → Table String Scalar
  | 0 => .empty
  | tick + 1 => session.valuesAt inputs (tick + 1)

/-- The keys that become pressed in a tick. -/
def edgesAt (session : Session) (inputs : ℕ → Table String Scalar) (tick : ℕ) : List String :=
  edgeKeys (session.previousAt inputs tick) (session.valuesAt inputs (tick + 1))

/-- The part of a tick after the interrupts, which left the given state. -/
def closeTick (session : Session) (state : RunState) : Session × Bool :=
  let ((processes, active), after) :=
    (Process.advanceAll session.settings session.program session.processes).run state
  let session := { session with
    previous := state.world.assignments, processes, state := after }
  match active with
  | .error stop => session.fail stop
  | .ok active => (session, !active)

/-- Between two ticks: the program is set up, and these are the values of the last tick and of the
keys. -/
structure Ready (settings : Settings) (program : List Node) (previous values : Table String Scalar)
    (session : Session) : Prop where
  settings_eq : session.settings = settings
  program_eq : session.program = program
  isSetUp : session.isSetUp = true
  previous_eq : session.previous = previous
  values_eq : Stepwise.HasValues values session.state

/-- A tick sets up, opens, and closes unless opening it failed. -/
theorem step_eq (session : Session) (inputs : Table String Scalar) :
    session.step inputs =
      match (session.setUp.openTick inputs).run session.setUp.state with
      | (.error stop, after) => ({ session.setUp with state := after } : Session).fail stop
      | (.ok (), after) => session.setUp.closeTick after := by
  rw [step, act]
  cases (session.setUp.openTick inputs).run session.setUp.state with
  | mk result after => cases result <;> rfl

theorem setUp_of_isSetUp (h : session.isSetUp = true) : session.setUp = session := by
  rw [setUp, if_pos h]

theorem step_eq_closeTick {inputs : Table String Scalar} {after : RunState}
    (hsetUp : session.isSetUp = true)
    (h : (session.openTick inputs).run session.state = (.ok (), after)) :
    session.step inputs = session.closeTick after := by
  rw [step_eq, setUp_of_isSetUp hsetUp, h]

/-- What logging leaves alone is left alone by the end of a tick that failed. -/
theorem state_fail {I : RunState → Prop} (hI : Quiet I) (hstate : I session.state) (stop : Stop) :
    I (session.fail stop).1.state := by
  cases stop with
  | endless => exact hstate
  | fault fault => exact hI.write _ _ hstate

/-- The rounds of the processes maintain what the statements of blocks maintain. -/
theorem state_closeTick {I : RunState → Prop}
    (hI : Run.Invariant session.settings (fun _ => True) I) {state : RunState} (hstate : I state) :
    I (session.closeTick state).1.state := by
  have hbodies : ∀ process ∈ session.processes, ∀ node ∈ process.body, True := by simp
  have hafter := (Holds.advanceAll hereditary_true hI session.program hbodies hstate).2
  rw [Session.closeTick]
  generalize (Process.advanceAll session.settings session.program session.processes).run state
    = outcome at hafter ⊢
  obtain ⟨⟨processes, active⟩, after⟩ := outcome
  cases active with
  | ok active => exact hafter
  | error stop => exact state_fail hI.toQuiet hafter stop

/-- The end of a tick changes the processes and the state, and remembers the values of the keys. -/
theorem closeTick_eq (session : Session) (state : RunState) :
    (session.closeTick state).1 = { session with
      previous := state.world.assignments
      processes := (session.closeTick state).1.processes
      state := (session.closeTick state).1.state } := by
  rw [closeTick]
  generalize (Process.advanceAll session.settings session.program session.processes).run state
    = outcome
  obtain ⟨⟨processes, active⟩, after⟩ := outcome
  cases active with
  | ok active => rfl
  | error stop => cases stop <;> rfl

/-- The rounds of the processes leave the values of the keys alone. -/
theorem Ready.closeTick {previous values values' : Table String Scalar}
    (H : session.Ready settings program previous values) {state : RunState}
    (hstate : Stepwise.HasValues values' state) :
    (session.closeTick state).1.Ready settings program values' values' := by
  have hafter := state_closeTick (Stepwise.invariant_hasValues session.settings values') hstate
  rw [closeTick_eq]
  exact ⟨H.settings_eq, H.program_eq, H.isSetUp, hstate, hafter⟩

/-- One tick. -/
theorem Ready.step {previous values inputs : Table String Scalar}
    (H : session.Ready settings program previous values) (hvalues : values.Legible)
    (hprogram : ∀ node ∈ program, node.isStatement = true)
    (hinputs : ∀ entry ∈ inputs.entries, entry.2.Written) :
    (session.step inputs).1.Ready settings program (values.update inputs) (values.update inputs) ∧
    ∃ received served,
      received.world = { session.state.world with assignments := values.update inputs } ∧
      Stepwise.Serves settings program (edgeKeys previous (values.update inputs)) received served ∧
      session.step inputs = session.closeTick served := by
  obtain ⟨received, hreceive, hworld⟩ :=
    Stepwise.exists_receive settings hvalues hinputs H.values_eq
  have hreceived : Stepwise.HasValues (values.update inputs) received := by
    rw [Stepwise.HasValues, hworld]
  obtain ⟨served, hinterrupts, hserves⟩ :=
    Stepwise.exists_serves settings hprogram previous received
  have hserved : Stepwise.HasValues (values.update inputs) served := by
    have hkept : Maintains False (Stepwise.HasValues (values.update inputs))
        (Stepwise.interrupts settings program previous) :=
      Stepwise.maintains_interrupts (Stepwise.invariant_hasValues settings _) hereditary_true
        (fun _ _ => trivial) previous
    have hafter := hkept.meets received hreceived
    rw [hinterrupts] at hafter
    exact hafter
  have hopen : (session.openTick inputs).run session.state = (.ok (), served) := by
    rw [openTick, H.settings_eq, H.program_eq, H.previous_eq, run_bind, hreceive]
    exact hinterrupts
  have hstep := step_eq_closeTick H.isSetUp hopen
  refine ⟨hstep ▸ H.closeTick hserved, received, served, hworld, ?_, hstep⟩
  rwa [hreceived] at hserves

/-- After the setup the values of the keys are distinct and can be written. -/
theorem holds_setUp (settings : Settings)
    (hprogram : ∀ node ∈ program, node.isStatement = true) :
    (create settings program).setUp.Holds settings program (fun node => node.isStatement = true)
      fun state => state.world.assignments.Legible := by
  have hrobust := Stepwise.robust_assignments Table.Legible
  have hsetup : Stepwise.Invariant settings (fun node => node.isStatement = true)
      fun state => state.world.assignments.Legible := by
    refine ⟨hrobust.invariant fun {_ node} _ => ?_, fun _ => hrobust.maintains_canvas _ _,
      fun {key node} hnode => ?_⟩
    · exact .bind (hrobust.completes_value settings node).maintains fun _ =>
        .bind (.modify fun _ h => h) fun _ => hrobust.maintains_emit _
    · simp only [Node.isStatement, Node.isSimple, Bool.and_eq_true] at hnode
      refine Ensures.bind ((hrobust.ensures_value settings hnode.2).mono (fun _ h => h)
        (fun _ _ h => h) fun _ _ h => h.elim) fun value => .of_imp fun hvalue => ?_
      exact Maintains.bind (.modify fun _ h => h.insert key hvalue) fun _ =>
        hrobust.maintains_trace settings _
  exact (Holds.create hrobust.toQuiet Table.Legible.empty).setUp hereditary_isStatement hsetup
    hprogram

theorem previous_act (session : Session) (action : Run Unit) :
    (session.act action).1.previous = session.previous := rfl

theorem previous_setUp (session : Session) : session.setUp.previous = session.previous := by
  rw [setUp]
  split
  · rfl
  · have hprevious := session.previous_act (setupActions session.settings session.program)
    generalize session.act (setupActions session.settings session.program) = outcome
      at hprevious ⊢
    exact hprevious

theorem isSetUp_setUp (session : Session) : session.setUp.isSetUp = true := by
  rw [setUp]
  split
  · assumption
  · generalize session.act (setupActions session.settings session.program) = outcome
    rfl

theorem previous_create (settings : Settings) (program : List Node) :
    (create settings program).previous = .empty := by
  rw [create, previous_act]

theorem ready_setUp (settings : Settings) (hprogram : ∀ node ∈ program, node.isStatement = true) :
    (create settings program).setUp.Ready settings program .empty
      (create settings program).setUp.state.world.assignments :=
  have H := holds_setUp settings hprogram
  ⟨H.settings_eq, H.program_eq, isSetUp_setUp _,
    (previous_setUp _).trans (previous_create settings program), rfl⟩

/-! ## Whole runs -/

section

variable {inputs : ℕ → Table String Scalar} (settings : Settings)
  (hprogram : ∀ node ∈ program, node.isStatement = true)
  (hinputs : ∀ tick, ∀ entry ∈ (inputs tick).entries, entry.2.Written)
include hprogram hinputs

theorem legible_valuesAt (tick : ℕ) :
    ((create settings program).valuesAt inputs tick).Legible := by
  induction tick with
  | zero => exact (holds_setUp settings hprogram).state
  | succ tick ih => exact ih.update (hinputs tick)

theorem ready_afterTicks (tick : ℕ) :
    ((create settings program).afterTicks inputs tick).Ready settings program
      ((create settings program).previousAt inputs tick)
      ((create settings program).valuesAt inputs tick) := by
  induction tick with
  | zero => exact ready_setUp settings hprogram
  | succ tick ih =>
    exact (ih.step (legible_valuesAt settings hprogram hinputs tick) hprogram (hinputs tick)).1

theorem mem_edgesAt_iff (tick : ℕ) (key : String) :
    key ∈ (create settings program).edgesAt inputs tick ↔
      IsPressed ((create settings program).valuesAt inputs (tick + 1)) key ∧
      (tick = 0 ∨ ¬ IsPressed ((create settings program).valuesAt inputs tick) key) := by
  rw [edgesAt, (legible_valuesAt settings hprogram hinputs (tick + 1)).mem_edgeKeys_iff]
  cases tick with
  | zero => simp [previousAt, IsPressed, Table.empty, Table.get?]
  | succ tick => simp [previousAt]

/-- Between two ticks at which a key is pressed and not pressed it is given another value. -/
theorem exists_release {first last : ℕ} (hlt : first ≤ last) {key : String}
    (hfirst : IsPressed ((create settings program).valuesAt inputs first) key)
    (hlast : ¬ IsPressed ((create settings program).valuesAt inputs last) key) :
    ∃ tick, first ≤ tick ∧ tick < last ∧
      ∃ value, (key, value) ∈ (inputs tick).entries ∧ value.same pressed = false := by
  induction last, hlt using Nat.le_induction with
  | base => exact absurd hfirst hlast
  | succ last hle ih =>
    by_cases hheld : IsPressed ((create settings program).valuesAt inputs last) key
    · exact ⟨last, hle, Nat.lt_succ_self last,
        (legible_valuesAt settings hprogram hinputs last).exists_mem_of_update (hinputs last) hheld
          hlast⟩
    · obtain ⟨tick, hge, hlt, hvalue⟩ := ih hheld
      exact ⟨tick, hge, Nat.lt_succ_of_lt hlt, hvalue⟩

end

/-- **Interrupts come at the edges of keys.** Let a program come from a text, and let a host supply
values of keys that can be written, one table for every tick. After every tick the keys have the
values of the setup updated by all that the host has supplied, and these are also what the next tick
compares with. Before the processes have their rounds, a tick serves exactly the keys that are
pressed and were not so after the tick before, or in the first tick all that are pressed; each has
one turn. A key that has its turn in two ticks has been given another value in a tick between. -/
theorem edges_of_parseSource {depth : ℕ} {source : String} {program : List Node}
    (h : parseSource depth source = .ok program) (settings : Settings)
    {inputs : ℕ → Table String Scalar}
    (hinputs : ∀ tick, ∀ entry ∈ (inputs tick).entries, entry.2.Written) :
    let session := create settings program
    (∀ tick, (session.afterTicks inputs tick).state.world.assignments =
      session.valuesAt inputs tick) ∧
    (∀ tick, (session.afterTicks inputs (tick + 1)).previous =
      session.valuesAt inputs (tick + 1)) ∧
    (∀ tick, ∃ received served,
      received.world = { (session.afterTicks inputs tick).state.world with
        assignments := session.valuesAt inputs (tick + 1) } ∧
      Stepwise.Serves settings program (session.edgesAt inputs tick) received served ∧
      (session.afterTicks inputs tick).step (inputs tick) =
        (session.afterTicks inputs tick).closeTick served) ∧
    (∀ tick, (session.edgesAt inputs tick).Nodup ∧ ∀ key,
      key ∈ session.edgesAt inputs tick ↔
        IsPressed (session.valuesAt inputs (tick + 1)) key ∧
          (tick = 0 ∨ ¬ IsPressed (session.valuesAt inputs tick) key)) ∧
    ∀ key first last, first < last → key ∈ session.edgesAt inputs first →
      key ∈ session.edgesAt inputs last → ∃ tick, first < tick ∧ tick < last ∧
        ∃ value, (key, value) ∈ (inputs tick).entries ∧ value.same pressed = false := by
  have hprogram : ∀ node ∈ program, node.isStatement = true :=
    List.all_eq_true.mp (settles_of_parseSource h).1
  have hready := ready_afterTicks settings hprogram hinputs
  have hlegible := legible_valuesAt settings hprogram hinputs
  have hedges := mem_edgesAt_iff settings hprogram hinputs
  refine ⟨fun tick => (hready tick).values_eq, fun tick => (hready (tick + 1)).previous_eq,
    fun tick => ((hready tick).step (hlegible tick) hprogram (hinputs tick)).2,
    fun tick => ⟨(hlegible (tick + 1)).nodup_edgeKeys _, hedges tick⟩, ?_⟩
  intro key first last hlt hfirst hlast
  have hreleased := ((hedges last key).mp hlast).2.resolve_left (by omega)
  exact exists_release settings hprogram hinputs hlt ((hedges first key).mp hfirst).1 hreleased

/-- Two keys are bound to one object, which goes right when the first is pressed. -/
def pressSource : String :=
  "canvas 3 1\nspawn id=2 x=0 y=0\nassign w to id=2\nassign d to id=2\n" ++
    "if id=2 is assigned d\n..true\n. move id=2 right\n"

/-- The program of `pressSource`. -/
def pressProgram : List Node :=
  [.canvas (.int 3) (.int 1),
    .spawn (.number (.int 2)) (.number (.int 0)) (.number (.int 0)) (.number (.int 0)),
    .assign "w" (.number (.int 2)), .assign "d" (.number (.int 2)),
    .branch (.number (.int 2)) "assigned" .absent "d"
      [.move (.number (.int 2)) .absent .absent "right" .absent (.bool false)] []]

theorem parseSource_pressSource : parseSource nestingLimit pressSource = .ok pressProgram :=
  parseSource_of_sameAll (by decide +kernel) (by decide +kernel)

/-- A key is pressed, held for a tick, let go and pressed again. -/
def pressInputs : ℕ → Table String Scalar
  | 0 => ⟨[("d", .int 1)]⟩
  | 2 => ⟨[("d", .int 0)]⟩
  | 3 => ⟨[("d", .int 1)]⟩
  | _ => .empty

theorem written_pressInputs (tick : ℕ) : ∀ entry ∈ (pressInputs tick).entries, entry.2.Written := by
  have hone := Scalar.one_lt_writtenBound
  unfold pressInputs
  split <;> simp [Table.empty, hone, Nat.zero_lt_of_lt hone]

theorem edges_of_pressSource :
    let session := create (.stepwise false .recording fun _ => .int 0) pressProgram
    [0, 1, 2, 3].map (session.edgesAt pressInputs) = [["d"], [], [], ["d"]] ∧
    (session.afterTicks pressInputs 4).previous = session.valuesAt pressInputs 4 :=
  ⟨by decide +kernel,
    (edges_of_parseSource parseSource_pressSource _ written_pressInputs).2.1 3⟩

end Session

end TileScript
