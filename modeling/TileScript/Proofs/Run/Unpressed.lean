import TileScript.Proofs.Run.Edges
import TileScript.Proofs.Run.Keeps

/-!
# Keys that are not pressed

Tick by tick, one table holds what the program binds its keys to and what the host says of them. A
key counts as pressed if its value there is one, wherever the value comes from. So a host that never
presses a key may still find it pressed: this is so if the program binds the key to the object with
the id one, and then the key interrupts in the first tick.

As long as the setup does not leave a key pressed and the host does not press it, nothing does: the
blocks of the conditions that test the key are dead. This is said by planting another block in their
place, wherever such a condition stands. The run of the other program differs in nothing but the
program.

## Main definitions

* `Unpressed`: a table that does not press a key.
* `Node.plant`: a block in the place of those that wait for a key.
* `Run.AgreesOn`: two actions that do the same on some states.
* `Session.plant`: the session of the other program.

## Main statements

* `Stepwise.agrees_block`, `Stepwise.agrees_interrupts`: blocks and interrupts do the same.
* `Session.unpressed_key_is_dead`: so do runs.
* `Session.key_pressed_by_setup`: a key that is pressed though no host presses it.
-/

namespace TileScript

open Run

/-! ## Values that do not press a key -/

/-- The table does not give the key the value of one that is held down. -/
def Unpressed (key : String) (values : Table String Scalar) : Prop :=
  ∀ value, (key, value) ∈ values.entries → value.same pressed = false

instance (key : String) (values : Table String Scalar) : Decidable (Unpressed key values) :=
  decidable_of_iff (∀ entry ∈ values.entries, entry.1 = key → entry.2.same pressed = false)
    ⟨fun h _ hvalue => h _ hvalue rfl, fun h _ hentry heq => h _ (heq ▸ hentry)⟩

namespace Unpressed

variable {key : String} {values inputs : Table String Scalar}

theorem not_isPressed (h : Unpressed key values) : ¬ IsPressed values key := by
  intro hpressed
  obtain ⟨value, hvalue, hsame⟩ := isPressed_iff.mp hpressed
  obtain ⟨⟨key', value'⟩, hfind, rfl⟩ := Option.map_eq_some_iff.mp hvalue
  have hkey := List.find?_some hfind
  obtain rfl : key' = key := eq_of_beq hkey
  rw [h value' (List.mem_of_find?_eq_some hfind)] at hsame
  cases hsame

theorem insert (h : Unpressed key values) {key' : String} {value : Scalar}
    (hvalue : key' = key → value.same pressed = false) :
    Unpressed key (values.insert key' value) := by
  obtain ⟨entries⟩ := values
  rw [Table.insert]
  induction entries with
  | nil =>
    intro found hfound
    cases List.mem_singleton.mp hfound
    exact hvalue rfl
  | cons entry rest ih =>
    have hrest : Unpressed key ⟨rest⟩ := fun found hfound => h found (List.mem_cons_of_mem _ hfound)
    intro found hfound
    dsimp only [Table.insertEntry] at hfound
    split at hfound
    · next hsame =>
      rcases List.mem_cons.mp hfound with heq | hfound
      · cases heq
        exact hvalue (eq_of_beq hsame).symm
      · exact hrest found hfound
    · rcases List.mem_cons.mp hfound with heq | hfound
      · exact h found (heq ▸ List.mem_cons_self)
      · exact ih hrest found hfound

theorem update (h : Unpressed key values) (hinputs : Unpressed key inputs) :
    Unpressed key (values.update inputs) := by
  obtain ⟨entries⟩ := inputs
  rw [Table.update]
  induction entries generalizing values with
  | nil => exact h
  | cons entry entries ih =>
    apply ih
    · exact h.insert fun heq => hinputs entry.2 (heq ▸ List.mem_cons_self)
    · exact fun value hvalue => hinputs value (List.mem_cons_of_mem _ hvalue)

end Unpressed

/-! ## Planting blocks -/

namespace Node

mutual

/-- The statement with another block in the place of those of the conditions that test the key. -/
def plant (key : String) (other : List Node) : Node → Node
  | .loop delay count body => .loop delay count (plantAll key other body)
  | .branch left relation right tested whenTrue whenFalse =>
    .branch left relation right tested
      (if relation.same "assigned" && tested.same key then other else plantAll key other whenTrue)
      (plantAll key other whenFalse)
  | node => node

/-- The statements with another block in the place of those of the conditions that test the key. -/
def plantAll (key : String) (other : List Node) : List Node → List Node
  | [] => []
  | node :: rest => node.plant key other :: plantAll key other rest

end

theorem plantAll_eq_map (key : String) (other nodes : List Node) :
    plantAll key other nodes = nodes.map (plant key other) := by
  induction nodes with
  | nil => rw [plantAll, List.map_nil]
  | cons node rest ih => rw [plantAll, List.map_cons, ih]

end Node

/-- The process with another block in the place of those that wait for the key. -/
def Process.plant (key : String) (other : List Node) (process : Process) : Process :=
  { process with body := Node.plantAll key other process.body }

namespace Stepwise

variable (key : String) (other program : List Node)

theorem boundNodes_plantAll (key' : String) :
    boundNodes (Node.plantAll key other program) key' = boundNodes program key' := by
  rw [boundNodes, boundNodes, Node.plantAll_eq_map, List.filterMap_map]
  refine List.filterMap_congr fun node _ => ?_
  cases node <;> rfl

theorem boundIds_plantAll (settings : Settings) :
    boundIds settings (Node.plantAll key other program) = boundIds settings program := by
  funext key'
  rw [boundIds, boundIds, boundNodes_plantAll]

theorem condition_plantAll (settings : Settings) :
    condition settings (Node.plantAll key other program) = condition settings program := by
  funext left relation right tested
  simp only [condition, heldFor, boundIds_plantAll]

theorem setupStatement_plant (settings : Settings) (node : Node) :
    setupStatement settings (node.plant key other) = setupStatement settings node := by
  cases node <;> rfl

end Stepwise

theorem Process.ofProgram_plantAll (key : String) (other program : List Node) :
    ofProgram (Node.plantAll key other program) =
      (ofProgram program).map (Process.plant key other) := by
  rw [ofProgram, ofProgram, Node.plantAll_eq_map, List.filterMap_map, List.map_filterMap]
  refine List.filterMap_congr fun node _ => ?_
  cases node <;> rfl

/-! ## Actions that do the same -/

namespace Run

variable {α β : Type} {I : RunState → Prop} {action action' : Run α}

/-- On the states with a property, the second action does what the first does. -/
structure AgreesOn (I : RunState → Prop) (action action' : Run α) : Prop where
  run_eq : ∀ state, I state → action'.run state = action.run state

namespace AgreesOn

theorem refl (action : Run α) : AgreesOn I action action := ⟨fun _ _ => rfl⟩

/-- The rest has to do the same after those results that the first part can have. -/
theorem bind {next next' : α → Run β} {post : α → Prop} (h : AgreesOn I action action')
    (hpost : Ensures I action (fun a state => post a ∧ I state) fun _ _ => True)
    (hnext : ∀ a, post a → AgreesOn I (next a) (next' a)) :
    AgreesOn I (action >>= next) (action' >>= next') := by
  constructor
  intro state hstate
  have hafter := hpost.meets state hstate
  rw [run_bind, run_bind, h.run_eq state hstate]
  cases hrun : action.run state with
  | mk result after =>
    rw [hrun] at hafter
    cases result with
    | ok a => exact (hnext a hafter.1).run_eq after hafter.2
    | error stop => rfl

/-- The first part is one that maintains the property. -/
theorem bind_of_maintains {next next' : α → Run β} (h : AgreesOn I action action')
    (hI : Maintains True I action) (hnext : ∀ a, AgreesOn I (next a) (next' a)) :
    AgreesOn I (action >>= next) (action' >>= next') := by
  have hpost : Ensures I action (fun _ state => True ∧ I state) fun _ _ => True :=
    hI.mono (fun _ h => h) (fun _ _ h => ⟨trivial, h⟩) fun _ _ _ => trivial
  exact h.bind hpost fun a _ => hnext a

theorem ite {condition : Prop} [Decidable condition] {yes yes' no no' : Run α}
    (hyes : condition → AgreesOn I yes yes') (hno : ¬condition → AgreesOn I no no') :
    AgreesOn I (if condition then yes else no) (if condition then yes' else no') := by
  by_cases h : condition
  · simpa [h] using hyes h
  · simpa [h] using hno h

theorem attempt {action action' : Run Unit} (settings : Settings) (h : AgreesOn I action action') :
    AgreesOn I (Run.attempt settings action) (Run.attempt settings action') := by
  constructor
  intro state hstate
  rw [Run.attempt, Run.attempt, run_tryCatch, run_tryCatch, h.run_eq state hstate]

/-- Actions for the members of a list do the same as other actions for what the members become. -/
theorem forM_map {list : List α} (change : α → β) {action : α → Run Unit} {action' : β → Run Unit}
    (h : ∀ a ∈ list, AgreesOn I (action a) (action' (change a)))
    (hI : ∀ a ∈ list, Maintains True I (action a)) :
    AgreesOn I (list.forM action) ((list.map change).forM action') := by
  induction list with
  | nil => exact refl _
  | cons a list ih =>
    obtain ⟨ha, hlist⟩ := List.forall_mem_cons.mp h
    obtain ⟨hIa, hIlist⟩ := List.forall_mem_cons.mp hI
    exact ha.bind_of_maintains hIa fun _ => ih hlist hIlist

theorem forM {list : List α} {action action' : α → Run Unit}
    (h : ∀ a ∈ list, AgreesOn I (action a) (action' a))
    (hI : ∀ a ∈ list, Maintains True I (action a)) :
    AgreesOn I (list.forM action) (list.forM action') := by
  simpa only [List.map_id] using forM_map id h hI

end AgreesOn

end Run

/-! ## Blocks and interrupts -/

namespace Scalar

theorem eq_text_of_same {value : Scalar} {text : String} (h : value.same (.text text) = true) :
    value = .text text := by
  cases value with
  | text name => exact congrArg Scalar.text (eq_of_beq h)
  | _ => simp [same, number?] at h

end Scalar

namespace Stepwise

variable {settings : Settings} {key : String} (other program : List Node)

/-- A key that is not pressed is not held down for any object. -/
theorem ensures_heldFor {tested : Scalar} (htested : tested.same key = true) (id : Scalar) :
    Ensures (fun state => Unpressed key state.world.assignments)
      (heldFor settings program tested id)
      (fun held state => held = false ∧ Unpressed key state.world.assignments)
      fun _ _ => True := by
  obtain rfl := Scalar.eq_text_of_same htested
  constructor
  intro state hstate
  have hreleased := hstate.not_isPressed
  rw [IsPressed, Bool.not_eq_true] at hreleased
  simp only [heldFor, run_get_bind, hreleased, Bool.false_eq_true, if_false]
  exact ⟨rfl, hstate⟩

/-- A condition that tests such a key does not hold. -/
theorem ensures_condition (left : Node) (relation : Scalar) (right : Node) (tested : Scalar) :
    Ensures (fun state => Unpressed key state.world.assignments)
      (condition settings program left relation right tested)
      (fun result state => ((relation.same "assigned" && tested.same key) = true →
        result.1 = false) ∧ Unpressed key state.world.assignments)
      fun _ _ => True := by
  have hI := robust_assignments (Unpressed key)
  by_cases htests : (relation.same "assigned" && tested.same key) = true
  · obtain ⟨hrelation, htested⟩ := Bool.and_eq_true_iff.mp htests
    rw [condition]
    refine Ensures.bind ((hI.completes_value settings left).mono (fun _ h => h) (fun _ _ h => h)
      fun _ _ h => h.elim) fun left => ?_
    rw [if_pos hrelation]
    refine (ensures_heldFor program htested left).bind fun held => .of_imp fun hheld => ?_
    exact .pure fun _ h => ⟨fun _ => hheld, h⟩
  · have hcondition : Maintains True _ (condition settings program left relation right tested) :=
      maintains_condition hI.toQuiet left relation right tested
    exact hcondition.mono (fun _ h => h) (fun _ _ h => ⟨fun h => absurd h htests, h⟩)
      fun _ _ _ => trivial

mutual

/-- A statement does the same with another block in the place of those that wait for the key. -/
theorem agrees_statement (node : Node) :
    AgreesOn (fun state => Unpressed key state.world.assignments)
      (statement settings program node)
      (statement settings (Node.plantAll key other program) (node.plant key other)) := by
  cases node with
  | branch left relation right tested whenTrue whenFalse =>
    rw [Node.plant, statement, statement, branch, branch, condition_plantAll]
    apply AgreesOn.attempt
    refine (AgreesOn.refl _).bind (ensures_condition program left relation right tested) ?_
    rintro ⟨holds, words⟩ hholds
    refine (AgreesOn.refl _).bind_of_maintains
      ((robust_assignments (Unpressed key)).maintains_trace settings _) fun _ => .ite ?_ ?_
    · intro htrue
      have htests : ¬(relation.same "assigned" && tested.same key) = true :=
        fun htests => Bool.false_ne_true ((hholds htests).symm.trans htrue)
      rw [if_neg htests]
      exact agrees_block whenTrue
    · exact fun _ => agrees_block whenFalse
  | define | compute | spawn | despawn | move | wait =>
    rw [statement_of_plain rfl, statement_of_plain rfl]
    exact .refl _
  | _ => exact .refl _

theorem agrees_block (nodes : List Node) :
    AgreesOn (fun state => Unpressed key state.world.assignments)
      (block settings program nodes)
      (block settings (Node.plantAll key other program) (Node.plantAll key other nodes)) := by
  cases nodes with
  | nil =>
    rw [Node.plantAll, block, block]
    exact .refl _
  | cons node rest =>
    rw [Node.plantAll, block, block]
    exact (agrees_statement node).bind_of_maintains
      (completes_statement (invariant_assignments settings (Unpressed key)) hereditary_true node
        trivial).maintains fun _ => agrees_block rest

end

/-- The conditions that test another key are the same, up to their blocks. -/
theorem watchers_plantAll {key' : String} (hne : key' ≠ key) :
    watchers (Node.plantAll key other program) key' =
      (watchers program key').map fun watcher =>
        (watcher.1, Node.plantAll key other watcher.2) := by
  rw [watchers, watchers, Node.plantAll_eq_map, List.filterMap_map, List.map_filterMap]
  refine List.filterMap_congr fun node _ => ?_
  cases node with
  | branch left relation right tested whenTrue whenFalse =>
    by_cases htests : (relation.same "assigned" && tested.same key') = true
    · have hother : ¬(relation.same "assigned" && tested.same key) = true := by
        intro h
        have hkey' := Scalar.eq_text_of_same (Bool.and_eq_true_iff.mp htests).2
        have hkey := Scalar.eq_text_of_same (Bool.and_eq_true_iff.mp h).2
        exact hne (Scalar.text.inj (hkey'.symm.trans hkey))
      simp only [Function.comp_apply, Node.plant, if_pos htests, if_neg hother, Option.map_some]
    · simp only [Function.comp_apply, Node.plant, if_neg htests, Option.map_none]
  | _ => rfl

/-- The interrupts of another key do the same. -/
theorem agrees_interrupt {key' : String} (hne : key' ≠ key) :
    AgreesOn (fun state => Unpressed key state.world.assignments)
      (interrupt settings program key')
      (interrupt settings (Node.plantAll key other program) key') := by
  have hI := invariant_assignments settings (Unpressed key)
  rw [interrupt, interrupt, boundIds_plantAll, watchers_plantAll other program hne]
  refine (AgreesOn.refl _).bind_of_maintains (hI.maintains_trace settings _) fun _ => ?_
  refine (AgreesOn.refl _).bind_of_maintains (completes_boundIds hI.toQuiet key').maintains
    fun ids => ?_
  have hvisit : ∀ (bound : Scalar) (watcher : Node × List Node), Maintains True
      (fun state => Unpressed key state.world.assignments) (do
        let id ← value settings watcher.1
        if id.same bound then
          trace settings
            ["Interrupt: running true block of if assigned ", key', " for id=", bound]
          block settings program watcher.2) := fun bound watcher =>
    .bind (hI.completes_value settings _).maintains fun _ => .ite
      (.bind (hI.maintains_trace settings _) fun _ =>
        (completes_block hI hereditary_true watcher.2 fun _ _ => trivial).maintains) (.pure _)
  refine .forM
    (fun bound _ => .forM_map _ (fun watcher _ => ?_) fun watcher _ => hvisit bound watcher)
    fun bound _ => .forM fun watcher _ => hvisit bound watcher
  refine (AgreesOn.refl _).bind_of_maintains (hI.completes_value settings _).maintains fun id =>
    .ite (fun _ => ?_) fun _ => .refl _
  exact (AgreesOn.refl _).bind_of_maintains (hI.maintains_trace settings _) fun _ =>
    agrees_block other program watcher.2

/-- The interrupts of a tick do the same: the key that is not pressed has none. -/
theorem agrees_interrupts (previous : Table String Scalar) :
    AgreesOn (fun state => Unpressed key state.world.assignments)
      (interrupts settings program previous)
      (interrupts settings (Node.plantAll key other program) previous) := by
  have hI := invariant_assignments settings (Unpressed key)
  constructor
  intro state hstate
  rw [interrupts, interrupts, run_get_bind, run_get_bind]
  refine (AgreesOn.forM (I := fun state => Unpressed key state.world.assignments)
    (fun entry hentry => ?_) fun entry _ => ?_).run_eq state hstate
  · refine AgreesOn.ite (fun hedge => ?_) fun _ => .refl _
    apply agrees_interrupt
    rintro rfl
    rw [isEdge, hstate entry.2 hentry] at hedge
    cases hedge
  · exact .ite (maintains_interrupt hI hereditary_true (fun _ _ => trivial) entry.1).of_false
      (.pure _)

end Stepwise

/-! ## Processes -/

namespace Process

variable {settings : Settings} {key : String} (other program : List Node)

/-- A round of a process does the same. -/
theorem agrees_advance (process : Process) :
    AgreesOn (fun state => Unpressed key state.world.assignments)
      (Option.map (plant key other) <$> process.advance settings program)
      ((process.plant key other).advance settings (Node.plantAll key other program)) := by
  have hI := Stepwise.invariant_assignments settings (Unpressed key)
  rw [advance, advance, map_bind]
  refine (AgreesOn.refl _).bind_of_maintains (.ofExcept _) fun finished => ?_
  cases finished with
  | true => exact .refl _
  | false =>
    simp only [Bool.false_eq_true, if_false, map_bind]
    refine (AgreesOn.refl _).bind_of_maintains (hI.maintains_trace settings _) fun _ => ?_
    exact (Stepwise.agrees_block other program process.body).bind_of_maintains
      (Stepwise.completes_block hI hereditary_true _ fun _ _ => trivial).maintains fun _ => .refl _

/-- A round of every process does the same. -/
theorem advanceAll_plant (processes : List Process) {state : RunState}
    (hstate : Unpressed key state.world.assignments) :
    (advanceAll settings (Node.plantAll key other program)
        (processes.map (plant key other))).run state =
      ((((advanceAll settings program processes).run state).1.1.map (plant key other),
        ((advanceAll settings program processes).run state).1.2),
        ((advanceAll settings program processes).run state).2) := by
  induction processes generalizing state with
  | nil => rfl
  | cons process rest ih =>
    have hafter := (Stepwise.ensures_advance
      (Stepwise.invariant_assignments settings (Unpressed key)) hereditary_true program process
      fun _ _ => trivial).meets state hstate
    rw [List.map_cons, run_advanceAll_cons, run_advanceAll_cons,
      (agrees_advance other program process).run_eq state hstate, map_eq_pure_bind, run_bind]
    generalize (process.advance settings program).run state = outcome at hafter ⊢
    obtain ⟨result, after⟩ := outcome
    cases result with
    | error stop => rfl
    | ok moved =>
      dsimp only [run_pure]
      rw [ih hafter.2]
      cases moved <;> rfl

end Process

/-! ## Sessions -/

namespace Session

variable {settings : Settings} {program : List Node} {key : String} {session : Session}

/-- The session of the program with another block in the place of those that wait for the key. -/
def plant (key : String) (other : List Node) (session : Session) : Session :=
  { session with
    program := Node.plantAll key other session.program
    processes := session.processes.map (Process.plant key other) }

theorem create_plant (settings : Settings) (key : String) (other program : List Node) :
    create settings (Node.plantAll key other program) =
      (create settings program).plant key other := by
  have hlength : (Node.plantAll key other program).length = program.length := by
    rw [Node.plantAll_eq_map, List.length_map]
  rw [create, create, act_eq, act_eq, hlength]
  simp only [plant, List.map_nil]

theorem setupActions_plantAll (settings : Settings) (key : String) (other program : List Node) :
    setupActions settings (Node.plantAll key other program) = setupActions settings program := by
  have hstatements : ∀ nodes : List Node,
      (Node.plantAll key other nodes).forM (Stepwise.setupStatement settings) =
        nodes.forM (Stepwise.setupStatement settings) := by
    intro nodes
    induction nodes with
    | nil => rw [Node.plantAll]
    | cons node rest ih =>
      rw [List.forM_eq_forM] at ih ⊢
      rw [Node.plantAll, List.forM_cons, List.forM_cons, Stepwise.setupStatement_plant, ih]
  rw [setupActions, setupActions, Process.ofProgram_plantAll, List.length_map, hstatements]

theorem setUp_plant (other : List Node) (session : Session) :
    (session.plant key other).setUp = session.setUp.plant key other := by
  cases h : session.isSetUp with
  | true =>
    rw [setUp_of_isSetUp h, setUp_of_isSetUp (show (session.plant key other).isSetUp = true from h)]
  | false =>
    rw [setUp_eq h, setUp_eq (show (session.plant key other).isSetUp = false from h)]
    simp only [plant, setupActions_plantAll, Process.ofProgram_plantAll]

theorem fail_plant (other : List Node) (session : Session) (stop : Stop) :
    (session.plant key other).fail stop =
      ((session.fail stop).1.plant key other, (session.fail stop).2) := by
  cases stop <;> rfl

theorem closeTick_plant (other : List Node) (session : Session) {state : RunState}
    (hstate : Unpressed key state.world.assignments) :
    (session.plant key other).closeTick state =
      ((session.closeTick state).1.plant key other, (session.closeTick state).2) := by
  have hall : (Process.advanceAll (session.plant key other).settings
      (session.plant key other).program (session.plant key other).processes).run state = _ :=
    Process.advanceAll_plant other session.program session.processes hstate
  rw [closeTick, closeTick, hall]
  dsimp only [plant]
  generalize (Process.advanceAll session.settings session.program session.processes).run state
    = outcome
  obtain ⟨⟨processes, active⟩, after⟩ := outcome
  cases active with
  | ok active => rfl
  | error stop =>
    exact fail_plant other { session with
      previous := state.world.assignments, processes, state := after } stop

/-- What the host supplies leaves the key alone. -/
theorem maintains_receive (settings : Settings) {inputs : Table String Scalar}
    (hinputs : Unpressed key inputs) :
    Maintains True (fun state => Unpressed key state.world.assignments)
      (Stepwise.receive settings inputs) := by
  rw [Stepwise.receive]
  refine .bind (.forM fun entry _ => .get_bind fun state => ?_) fun _ =>
    .modify fun _ h => h.update hinputs
  exact .ite (.pure _) ((Stepwise.robust_assignments (Unpressed key)).maintains_trace settings _)

theorem maintains_openTick (session : Session) {inputs : Table String Scalar}
    (hinputs : Unpressed key inputs) :
    Maintains True (fun state => Unpressed key state.world.assignments)
      (session.openTick inputs) :=
  .bind (maintains_receive session.settings hinputs) fun _ =>
    (Stepwise.maintains_interrupts (Stepwise.invariant_assignments session.settings (Unpressed key))
      hereditary_true (fun _ _ => trivial) _).of_false

theorem agrees_openTick (other : List Node) (session : Session) {inputs : Table String Scalar}
    (hinputs : Unpressed key inputs) :
    AgreesOn (fun state => Unpressed key state.world.assignments)
      (session.openTick inputs) ((session.plant key other).openTick inputs) :=
  (AgreesOn.refl _).bind_of_maintains (maintains_receive session.settings hinputs) fun _ =>
    Stepwise.agrees_interrupts other session.program session.previous

theorem step_plant (other : List Node) {inputs : Table String Scalar}
    (hinputs : Unpressed key inputs)
    (hsetUp : Unpressed key session.setUp.state.world.assignments) :
    (session.plant key other).step inputs =
      ((session.step inputs).1.plant key other, (session.step inputs).2) := by
  have hafter := (session.setUp.maintains_openTick hinputs).meets session.setUp.state hsetUp
  have hopen : ((session.setUp.plant key other).openTick inputs).run
      (session.setUp.plant key other).state = _ :=
    (agrees_openTick other session.setUp hinputs).run_eq session.setUp.state hsetUp
  rw [step_eq, step_eq, setUp_plant, hopen]
  cases hrun : (session.setUp.openTick inputs).run session.setUp.state with
  | mk result after =>
    rw [hrun] at hafter
    cases result with
    | error stop => exact fail_plant other { session.setUp with state := after } stop
    | ok _ => exact closeTick_plant other session.setUp hafter

theorem pressKey_plant (other : List Node) (session : Session) (key' : String) :
    (session.plant key other).pressKey key' =
      ((session.pressKey key').1.plant key other, (session.pressKey key').2) := rfl

/-- The session has not begun, or it is set up and the key is not pressed. -/
structure Idle (settings : Settings) (program : List Node) (key : String) (session : Session) :
    Prop where
  fresh : session.isSetUp = false → session = create settings program
  unpressed : session.isSetUp = true → Unpressed key session.state.world.assignments

theorem idle_create (settings : Settings) (program : List Node) (key : String) :
    (create settings program).Idle settings program key := by
  have hbegun : (create settings program).isSetUp = false := by rw [create, act_eq]
  exact ⟨fun _ => rfl, fun h => absurd (hbegun.symm.trans h) Bool.false_ne_true⟩

theorem world_create (settings : Settings) (program : List Node) :
    (create settings program).state.world = .empty :=
  keeps_create (P := (· = .empty)) settings program rfl

/-- Before the setup no key is bound, and no key moves an object. -/
theorem pressKey_create (settings : Settings) (program : List Node) (key' : String) :
    ((create settings program).pressKey key').1 = create settings program := by
  have hrun : (keyMove (create settings program).settings key').run
      (create settings program).state = (.ok (), (create settings program).state) := by
    have hunbound : World.empty.assignments.get? key' = none := rfl
    rw [keyMove, run_get_bind, world_create, hunbound]
    cases keyDirection? key' <;> rfl
  rw [pressKey, act_eq, hrun]

namespace Idle

variable (H : session.Idle settings program key)

include H in
theorem not_isPressed : ¬ IsPressed session.state.world.assignments key := by
  cases h : session.isSetUp with
  | true => exact (H.unpressed h).not_isPressed
  | false =>
    rw [H.fresh h, world_create]
    exact Bool.false_ne_true

variable (hsetUp : Unpressed key (create settings program).setUp.state.world.assignments)
include H hsetUp

theorem unpressed_setUp : Unpressed key session.setUp.state.world.assignments := by
  cases h : session.isSetUp with
  | false =>
    rw [H.fresh h]
    exact hsetUp
  | true =>
    rw [setUp_of_isSetUp h]
    exact H.unpressed h

/-- A tick in which the host does not press the key leaves it so. -/
theorem step {inputs : Table String Scalar} (hinputs : Unpressed key inputs) :
    (session.step inputs).1.Idle settings program key := by
  have hI := Stepwise.invariant_assignments session.setUp.settings (Unpressed key)
  have hafter := (session.setUp.maintains_openTick hinputs).meets session.setUp.state
    (H.unpressed_setUp hsetUp)
  have hbegun : ∀ {last : Session}, last.isSetUp = true →
      Unpressed key last.state.world.assignments → last.Idle settings program key :=
    fun h hlast => ⟨fun h' => absurd (h'.symm.trans h) Bool.false_ne_true, fun _ => hlast⟩
  rw [step_eq]
  cases hrun : (session.setUp.openTick inputs).run session.setUp.state with
  | mk result after =>
    rw [hrun] at hafter
    cases result with
    | error stop =>
      apply hbegun
      · cases stop <;> exact isSetUp_setUp session
      · exact state_fail hI.toQuiet hafter.2 stop
    | ok _ =>
      apply hbegun
      · dsimp only
        rw [closeTick_eq]
        exact isSetUp_setUp session
      · exact state_closeTick hI hafter

theorem call {call : Call} (hcall : ∀ inputs, call = .step inputs → Unpressed key inputs) :
    (session.call call).Idle settings program key := by
  cases call with
  | setUp =>
    have hbegun := isSetUp_setUp session
    exact ⟨fun h => absurd (h.symm.trans hbegun) Bool.false_ne_true,
      fun _ => H.unpressed_setUp hsetUp⟩
  | step inputs => exact H.step hsetUp (hcall inputs rfl)
  | pressKey key' =>
    cases h : session.isSetUp with
    | false =>
      rw [H.fresh h]
      change ((create settings program).pressKey key').1.Idle settings program key
      rw [pressKey_create]
      exact idle_create settings program key
    | true =>
      have hmove := (Stepwise.robust_assignments (Unpressed key)).maintains_keyMove (E := True)
        session.settings key'
      exact ⟨fun h' => absurd (h'.symm.trans h) Bool.false_ne_true,
        fun _ => hmove.state_run (H.unpressed h)⟩

/-- With another block in the place of those that wait for the key, a call does the same. -/
theorem call_plant {call : Call} (hcall : ∀ inputs, call = .step inputs → Unpressed key inputs)
    (other : List Node) :
    (session.plant key other).call call = (session.call call).plant key other := by
  cases call with
  | setUp => exact setUp_plant other session
  | step inputs =>
    exact congrArg Prod.fst (step_plant other (hcall inputs rfl) (H.unpressed_setUp hsetUp))
  | pressKey key' => exact congrArg Prod.fst (pressKey_plant other session key')

theorem calls {calls : List Call} (hcalls : ∀ inputs, .step inputs ∈ calls → Unpressed key inputs)
    (other : List Node) :
    (calls.foldl Session.call session).Idle settings program key ∧
    calls.foldl Session.call (session.plant key other) =
      (calls.foldl Session.call session).plant key other := by
  induction calls generalizing session with
  | nil => exact ⟨H, rfl⟩
  | cons call calls ih =>
    have hcall : ∀ inputs, call = .step inputs → Unpressed key inputs :=
      fun inputs h => hcalls inputs (h ▸ List.mem_cons_self)
    rw [List.foldl_cons, List.foldl_cons, H.call_plant hsetUp hcall other]
    exact ih (H.call hsetUp hcall) fun inputs h => hcalls inputs (List.mem_cons_of_mem _ h)

end Idle

/-- The blocks that wait for a key are dead if neither the setup nor the host presses it. -/
theorem plant_of_unpressed
    (hsetUp : Unpressed key (create settings program).setUp.state.world.assignments)
    {calls : List Call} (hcalls : ∀ inputs, .step inputs ∈ calls → Unpressed key inputs)
    (other : List Node) :
    calls.foldl call (create settings (Node.plantAll key other program)) =
      (calls.foldl call (create settings program)).plant key other ∧
    ∀ inputs, Unpressed key inputs →
      ((calls.foldl call (create settings (Node.plantAll key other program))).step inputs).2 =
        ((calls.foldl call (create settings program)).step inputs).2 := by
  obtain ⟨hidle, hplant⟩ := (idle_create settings program key).calls hsetUp hcalls other
  rw [create_plant, hplant]
  refine ⟨rfl, fun inputs hinputs => ?_⟩
  rw [step_plant other hinputs (hidle.unpressed_setUp hsetUp)]

/-- A key that the setup leaves pressed has its turn in the first tick. -/
theorem mem_edgesAt_of_isPressed (hprogram : ∀ node ∈ program, node.isStatement = true)
    (hpressed : IsPressed (create settings program).setUp.state.world.assignments key)
    {inputs : ℕ → Table String Scalar}
    (hwritten : ∀ tick, ∀ entry ∈ (inputs tick).entries, entry.2.Written)
    (hother : ∀ entry ∈ (inputs 0).entries, entry.1 ≠ key) :
    key ∈ (create settings program).edgesAt inputs 0 := by
  refine (mem_edgesAt_iff settings hprogram hwritten 0 key).mpr ⟨?_, .inl rfl⟩
  by_contra hreleased
  obtain ⟨value, hvalue, -⟩ := (legible_valuesAt settings hprogram hwritten 0).exists_mem_of_update
    (hwritten 0) hpressed hreleased
  exact hother _ hvalue rfl

/-- **A key that nobody presses runs nothing.** Let the setup of a program not leave a key pressed,
and let a host that sets up, ticks and moves objects by keys never press it. Then the key is not
pressed after any of the calls, and all the blocks of conditions that test the key, wherever they
stand, are dead: with any other block in their place the session comes to be the same, and so does
what the next tick says of being done. But if the setup does leave the key pressed, in a program
that comes from a text, and the host does not name the key, then it has its turn in the first
tick. -/
theorem unpressed_key_is_dead (settings : Settings) (program : List Node) (key : String) :
    (Unpressed key (create settings program).setUp.state.world.assignments →
      ∀ calls : List Call, (∀ inputs, .step inputs ∈ calls → Unpressed key inputs) →
        ¬ IsPressed (calls.foldl call (create settings program)).state.world.assignments key ∧
        ∀ other : List Node,
          let session := calls.foldl call (create settings program)
          let planted := calls.foldl call (create settings (Node.plantAll key other program))
          planted = session.plant key other ∧
          ∀ inputs, Unpressed key inputs → (planted.step inputs).2 = (session.step inputs).2) ∧
    ∀ depth source, parseSource depth source = .ok program →
      IsPressed (create settings program).setUp.state.world.assignments key →
      ∀ inputs : ℕ → Table String Scalar,
        (∀ tick, ∀ entry ∈ (inputs tick).entries, entry.1 ≠ key ∧ entry.2.Written) →
        key ∈ (create settings program).edgesAt inputs 0 ∧ ∃ received served,
          Stepwise.Serves settings program ((create settings program).edgesAt inputs 0) received
            served ∧
          (create settings program).setUp.step (inputs 0) =
            (create settings program).setUp.closeTick served := by
  constructor
  · intro hsetUp calls hcalls
    exact ⟨((idle_create settings program key).calls hsetUp hcalls []).1.not_isPressed,
      plant_of_unpressed hsetUp hcalls⟩
  · intro depth source hsource hpressed inputs hinputs
    have hprogram : ∀ node ∈ program, node.isStatement = true :=
      List.all_eq_true.mp (settles_of_parseSource hsource).1
    have hwritten : ∀ tick, ∀ entry ∈ (inputs tick).entries, entry.2.Written :=
      fun tick entry hentry => (hinputs tick entry hentry).2
    obtain ⟨-, received, served, -, hserves, hstep⟩ :=
      (ready_setUp settings hprogram).step (holds_setUp settings hprogram).state hprogram
        (hwritten 0)
    exact ⟨mem_edgesAt_of_isPressed hprogram hpressed hwritten fun entry hentry =>
      (hinputs 0 entry hentry).1, received, served, hserves, hstep⟩

/-- A key is bound to the object with the id one, which is taken off the board when the key is
pressed. -/
def wakeSource : String :=
  "canvas 3 3\nspawn id=1 x=1 y=1\nassign w to id=1\nif id=1 is assigned w\n..true\n" ++
    ". despawn id=1\n"

/-- The program of `wakeSource`. -/
def wakeProgram : List Node :=
  [.canvas (.int 3) (.int 3),
    .spawn (.number (.int 1)) (.number (.int 1)) (.number (.int 1)) (.number (.int 0)),
    .assign "w" (.number (.int 1)),
    .branch (.number (.int 1)) "assigned" .absent "w" [.despawn (.scalar (.int 1))] []]

theorem parseSource_wakeSource : parseSource nestingLimit wakeSource = .ok wakeProgram :=
  parseSource_of_sameAll (by decide +kernel) (by decide +kernel)

/-- Bound to the object with the id two, a key that is not pressed runs nothing; bound to the object
with the id one, it has its turn. -/
theorem unpressed_key_is_dead_press :
    let settings := Settings.stepwise true .recording fun _ => .int 0
    let calls : List Call := [.step ⟨[("d", .int 0)]⟩, .pressKey "d", .step ⟨[("w", .int 1)]⟩]
    let waits : List Node := [.wait (.int 5)]
    calls.foldl call (create settings (Node.plantAll "d" waits pressProgram)) =
      (calls.foldl call (create settings pressProgram)).plant "d" waits ∧
    "w" ∈ (create settings wakeProgram).edgesAt (fun _ => .empty) 0 := by
  intro settings calls waits
  have hcalls : ∀ inputs, .step inputs ∈ calls → Unpressed "d" inputs := by
    intro inputs hinputs
    simp only [calls, List.mem_cons, Call.step.injEq, reduceCtorEq, List.not_mem_nil, false_or,
      or_false] at hinputs
    rcases hinputs with rfl | rfl <;> decide
  have hpress :=
    (unpressed_key_is_dead settings pressProgram "d").1 (by decide +kernel) calls hcalls
  have hwake := (unpressed_key_is_dead settings wakeProgram "w").2 nestingLimit wakeSource
    parseSource_wakeSource (by unfold IsPressed; decide +kernel) (fun _ => .empty)
    fun _ _ h => absurd h List.not_mem_nil
  exact ⟨(hpress.2 waits).1, hwake.1⟩

/-- **A key may be pressed by the program itself.** A tick without any input takes the object off
the board, by the block that waits for the key. -/
theorem key_pressed_by_setup :
    let settings := Settings.stepwise false .absent fun _ => .int 0
    let other := Node.plantAll "w" [] wakeProgram
    parseSource nestingLimit wakeSource = .ok wakeProgram ∧ Unpressed "w" .empty ∧
    ((create settings other).step .empty).1.state.world.objects.contains (.int 1) = true ∧
    ((create settings wakeProgram).step .empty).1.state.world.objects.contains (.int 1) = false :=
  ⟨parseSource_wakeSource, by decide, by decide +kernel, by decide +kernel⟩

end Session

end TileScript
