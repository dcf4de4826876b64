import TileScript.Proofs.Program.Shape
import TileScript.Proofs.Run.Moments
import TileScript.Proofs.Run.Stored

/-!
# What programs store is reported

A statement that sets a variable, binds a key, puts an object on the board or moves one reports so
in a line of its own, after the change. The line shows what was stored. It can be written, because
programs store only numbers in normal form, so that no such change is followed by a fault in place
of its line; and a change of the board that fails has changed nothing.

## Main definitions

* `Node.reportStart?`: how the line of a statement begins.
* `Run.prepared`: the state of a run when the expressions of a statement are evaluated.
* `RunState.Since`, `RunState.Reports`: what the log has come to hold.
* `Run.ReportsOrFails`: how a statement that stores something ends.

## Main statements

* `Run.reportsOrFails_plain`, `Run.reportsOrFails_handle`: how all such statements end.
* `stores_of_parseSource`: what programs that come from texts store and report.
-/

namespace TileScript

open Run

/-- The beginning of the line in which a statement reports what it has stored. -/
def Node.reportStart? : Node → Option String
  | .define name _ => some ("Variable " ++ name ++ " set to ")
  | .assign key _ => some ("Assigned key '" ++ key ++ "' to value ")
  | .spawn _ _ _ _ => some "Spawned id="
  | .move _ _ _ _ _ _ => some "Moved id="
  | _ => none

/-- A line that begins with a text. -/
theorem Scalar.line?_text_cons (text : String) (pieces : List Scalar) :
    line? (.text text :: pieces) = (line? pieces).map (text ++ ·) := by
  rw [line?, line?, List.mapM_cons]
  cases pieces.mapM display? <;> simp [display?]

/-- A line that names what a value is stored under and shows the value. -/
theorem Scalar.exists_line?_named {value : Scalar} (h : value.Written)
    (before name after : String) :
    ∃ rest, line? [before, name, after, value] = some (before ++ name ++ after ++ rest) := by
  have hpieces : ∀ piece ∈ [value], piece.Written := by simpa using h
  obtain ⟨rest, hrest⟩ := exists_line? hpieces
  exact ⟨rest, by simp [line?_text_cons, hrest, String.append_assoc]⟩

/-! ## The log -/

namespace RunState

/-- The log has come to hold the given lines after those that it held, and none of them reports a
fault. -/
structure Adds (log lines : Array LogLine) (state : RunState) : Prop where
  log_eq : state.log = log ++ lines
  role_ne : ∀ line ∈ lines, line.role ≠ .fault

/-- Since the log was the given one, no fault has been reported. -/
def Since (log : Array LogLine) (state : RunState) : Prop := ∃ lines, state.Adds log lines

/-- Since the log was the given one, no fault has been reported, and a statement has reported a line
with the given beginning. -/
def Reports (log : Array LogLine) (start : String) (state : RunState) : Prop :=
  ∃ lines, state.Adds log lines ∧ ∃ rest, ⟨.report, start ++ rest⟩ ∈ lines

variable {log : Array LogLine} {start : String} {state : RunState}

theorem since_of_log_eq (h : state.log = log) : state.Since log := ⟨#[], by simp [h], by simp⟩

theorem Adds.write {lines : Array LogLine} (h : state.Adds log lines) {role : LineRole}
    (hrole : role ≠ .fault) (text : String) :
    (state.write role text).Adds log (lines.push ⟨role, text⟩) := by
  refine ⟨by simp [RunState.write, h.log_eq], fun line hline => ?_⟩
  rcases Array.mem_push.mp hline with hold | rfl
  · exact h.role_ne line hold
  · exact hrole

end RunState

open RunState

/-! ## Reports of statements -/

namespace Run

variable {α : Type} {settings : Settings} {log : Array LogLine} {start : String}
  {halt : Stop → RunState → Prop}

theorem ensures_since_emit {pieces : List Scalar} (h : ∀ piece ∈ pieces, piece.Written) :
    Ensures (Since log) (emit pieces) (fun _ => Since log) halt := by
  obtain ⟨text, htext⟩ := Scalar.exists_line? h
  rw [emit_eq htext]
  exact ⟨fun _ ⟨_, hadds⟩ => ⟨_, hadds.write (by decide) text⟩⟩

/-- A line with the beginning is reported. -/
theorem ensures_reports_emit {pieces : List Scalar} {rest : String}
    (h : Scalar.line? pieces = some (start ++ rest)) :
    Ensures (Since log) (emit pieces) (fun _ => Reports log start) halt := by
  rw [emit_eq h]
  exact ⟨fun _ ⟨_, hadds⟩ => ⟨_, hadds.write (by decide) _, rest, Array.mem_push_self⟩⟩

theorem ensures_reports_notify (name : String) :
    Ensures (Reports log start) (notify settings name) (fun _ => Reports log start) halt := by
  rw [notify]
  split
  · exact .pure fun _ h => h
  · constructor
    rintro state ⟨lines, hadds, hrest⟩
    exact ⟨lines, ⟨hadds.log_eq, hadds.role_ne⟩, hrest⟩
  · constructor
    rintro state ⟨lines, hadds, rest, hrest⟩
    exact ⟨_, hadds.write (by decide) _, rest, Array.mem_push_of_mem _ hrest⟩

/-- The end of a statement: its line, which begins with a text, and the notice. -/
theorem ensures_reports_conclude {pieces : List Scalar}
    (h : ∀ piece ∈ .text start :: pieces, piece.Written) (name : String) :
    Ensures (Since log) (do emit (.text start :: pieces); notify settings name)
      (fun _ => Reports log start) halt := by
  obtain ⟨rest, hrest⟩ := Scalar.exists_line? (List.forall_mem_cons.mp h).2
  have hline : Scalar.line? (.text start :: pieces) = some (start ++ rest) := by
    rw [Scalar.line?_text_cons, hrest, Option.map_some]
  exact .bind (ensures_reports_emit hline) fun _ => ensures_reports_notify name

/-- A change that fails leaves the state as it was. -/
theorem ensures_whole_change {operation : World → Outcome α} {done : World → α → Prop}
    {state : RunState} (h : (operation state.world).IsWhole state.world done) :
    Ensures (· = state) (change operation)
      (fun a after => done after.world a ∧ after.log = state.log)
      fun stop after => (∃ fault, stop = .fault fault) ∧ after = state := by
  refine ⟨fun found hfound => ?_⟩
  subst hfound
  rw [run_change]
  generalize operation found.world = outcome at h ⊢
  obtain ⟨world, fault | a⟩ := outcome
  · obtain rfl : world = found.world := h
    exact ⟨⟨fault, rfl⟩, rfl⟩
  · exact ⟨h, rfl⟩

/-- What does not depend on the state may be taken out of the precondition. -/
theorem Ensures.of_imp_left {p : Prop} {pre pre' : RunState → Prop} {action : Run α}
    {post : α → RunState → Prop}
    (h : p → Ensures (fun state => pre state ∧ pre' state) action post halt) :
    Ensures (fun state => (p ∧ pre state) ∧ pre' state) action post halt :=
  ⟨fun state hstate => (h hstate.1.1).meets state ⟨hstate.1.2, hstate.2⟩⟩

/-- The record of an object that is there. -/
theorem ensures_recordOf_since {id : Scalar} {P : TileObject → Prop} :
    Ensures
      (fun state => (state.world.Sound ∧
        ∃ object, (id.normalize, object) ∈ state.world.objects.entries ∧ P object) ∧
          state.log = log)
      (recordOf id)
      (fun object state => (object.id.Written ∧ object.x.Written ∧ object.y.Written ∧ P object) ∧
        state.Since log)
      halt := by
  refine ⟨fun state hstate => ?_⟩
  obtain ⟨⟨H, object, hobject, hP⟩, hlog⟩ := hstate
  obtain ⟨hrun, hid, hx, hy⟩ := run_recordOf H hobject
  rw [hrun]
  exact ⟨⟨hid, hx, hy, hP⟩, since_of_log_eq hlog⟩

/-- The state after evaluating an expression that may be missing. -/
def evaluatedOptional (settings : Settings) (state : RunState) (node : Node) : RunState :=
  if node.isAbsent then state else evaluated settings node state

/-- The state of a run when the expressions of a statement are evaluated. -/
def prepared (settings : Settings) (node : Node) (state : RunState) : RunState :=
  node.children.foldl (evaluatedOptional settings) state

/-- How a statement that stores something ends: it reports so, or it fails and has done no more than
evaluate its expressions. -/
def ReportsOrFails (settings : Settings) (node : Node) (start : String) (state : RunState) :
    Except Stop α × RunState → Prop :=
  Meets (fun _ => Reports (prepared settings node state).log start)
    fun stop after => (∃ fault, stop = .fault fault) ∧ after = prepared settings node state

theorem evaluatedOptional_eq {node : Node} (h : node.isExpression = true) (state : RunState) :
    evaluatedOptional settings state node = evaluated settings node state := by
  simp [evaluatedOptional, Node.isAbsent_eq_false h]

theorem world_prepared (settings : Settings) (node : Node) (state : RunState) :
    (prepared settings node state).world = state.world := by
  rw [prepared]
  induction node.children generalizing state with
  | nil => rfl
  | cons child rest ih =>
    rw [List.foldl_cons, ih, evaluatedOptional]
    split <;> rfl

/-- Evaluating an expression of a statement gives a value that can be written, if there is one. -/
theorem ensures_optionalValue_eq {node : Node} (h : node.isOptional = true) (state : RunState) :
    Ensures (· = state) (optionalValue settings node)
      (fun value after => value.Written ∧ after = evaluatedOptional settings state node) halt := by
  refine ⟨fun found hfound => ?_⟩
  subst hfound
  rw [optionalValue, evaluatedOptional]
  split
  · exact ⟨Scalar.written_null, rfl⟩
  · next hpresent =>
    rw [run_value]
    exact ⟨written_valueOf settings (by simpa [Node.isOptional, hpresent] using h) found, rfl⟩

theorem ensures_value_eq {node : Node} (h : node.isExpression = true) (state : RunState) :
    Ensures (· = state) (value settings node)
      (fun value after => value.Written ∧ after = evaluatedOptional settings state node) halt := by
  refine ⟨fun found hfound => ?_⟩
  subst hfound
  rw [run_value, evaluatedOptional_eq h]
  exact ⟨written_valueOf settings h found, rfl⟩

theorem ensures_since_modify {store : RunState → RunState} {state : RunState}
    (h : ∀ state, (store state).log = state.log) :
    Ensures (· = state) (modify store) (fun _ => Since state.log) halt :=
  ⟨fun found hfound => hfound ▸ since_of_log_eq (h found)⟩

/-- Nothing keeps a variable from being set. -/
theorem reportsOrFails_define {name : String} {node : Node}
    (h : (Node.define name node).isStatement = true) (state : RunState) :
    ReportsOrFails settings (.define name node) ("Variable " ++ name ++ " set to ") state
      ((define settings name node).run state) := by
  simp only [Node.isStatement, Node.isSimple, Bool.and_eq_true] at h
  refine (Ensures.bind (ensures_value_eq h.2 state) fun value => .of_imp fun hvalue => ?_).meets
    state rfl
  obtain ⟨rest, hrest⟩ := Scalar.exists_line?_named hvalue "Variable " name " set to "
  exact .bind (ensures_since_modify fun _ => rfl) fun _ => ensures_reports_emit hrest

/-- Nothing keeps a key from being bound, whatever comes after. -/
theorem reportsOrFails_assign {key : String} {node : Node} (next : Scalar → α)
    (h : (Node.assign key node).isStatement = true) (state : RunState) :
    ReportsOrFails settings (.assign key node) ("Assigned key '" ++ key ++ "' to value ") state
      ((do
        let value ← value settings node
        setAssignment key value
        emit ["Assigned key '", key, "' to value ", value]
        return next value : Run α).run state) := by
  simp only [Node.isStatement, Node.isSimple, Bool.and_eq_true] at h
  refine (Ensures.bind (ensures_value_eq h.2 state) fun value => .of_imp fun hvalue => ?_).meets
    state rfl
  obtain ⟨rest, hrest⟩ := Scalar.exists_line?_named hvalue "Assigned key '" key "' to value "
  exact .bind (ensures_since_modify fun _ => rfl) fun _ =>
    .bind (ensures_reports_emit hrest) fun _ => .pure fun _ h => h

/-- An object is on the board and reported so, or nothing has changed. -/
theorem reportsOrFails_spawn {id x y objectState : Node}
    (h : (Node.spawn id x y objectState).isStatement = true) {state : RunState}
    (H : state.world.Sound) :
    ReportsOrFails settings (.spawn id x y objectState) "Spawned id=" state
      ((spawn settings id x y objectState).run state) := by
  simp only [Node.isStatement, Node.isSimple, Bool.and_eq_true] at h
  obtain ⟨⟨⟨hid, hx⟩, hy⟩, hstate⟩ := h
  have hsound : (prepared settings (.spawn id x y objectState) state).world.Sound := by
    rwa [world_prepared]
  refine (Ensures.bind (ensures_value_eq hid state) fun id => .of_imp fun _ => ?_).meets state rfl
  refine .bind (ensures_value_eq hx _) fun x => .of_imp fun _ => ?_
  refine .bind (ensures_value_eq hy _) fun y => .of_imp fun _ => ?_
  refine .bind (ensures_value_eq hstate _) fun objectState => .of_imp fun hwritten => ?_
  refine .bind (ensures_whole_change (hsound.isWhole_spawn id x y objectState)) fun evicted => ?_
  refine .bind ensures_recordOf_since fun object => .of_imp fun hobject => ?_
  obtain ⟨hid, hx, hy, hstate⟩ := hobject
  have hstate : object.state.Written := hstate ▸ hwritten.normalize
  split
  · exact ensures_reports_conclude (by simp [hid, hx, hy, hstate]) "spawn"
  · exact .bind (ensures_since_emit (by simp [hid, hx, hy])) fun _ =>
      ensures_reports_conclude (by simp [hid, hx, hy, hstate]) "spawn"

/-- An object has been moved and is reported so, or nothing has changed. -/
theorem reportsOrFails_move {id x y : Node} {direction : Scalar} {objectState : Node}
    {swap : Scalar} (h : (Node.move id x y direction objectState swap).isStatement = true)
    {state : RunState} (H : state.world.Sound) :
    ReportsOrFails settings (.move id x y direction objectState swap) "Moved id=" state
      ((move settings id x y direction objectState swap).run state) := by
  obtain ⟨-, -, hid, hx, hy, -, hstate⟩ :=
    Node.exists_of_isSimple_move (Node.isSimple_of_isStatement h (by simp) (by simp))
  have hsound :
      (prepared settings (.move id x y direction objectState swap) state).world.Sound := by
    rwa [world_prepared]
  refine (Ensures.bind (ensures_value_eq hid state) fun id => .of_imp fun _ => ?_).meets state rfl
  refine .bind (ensures_optionalValue_eq hx _) fun x => .of_imp fun _ => ?_
  refine .bind (ensures_optionalValue_eq hy _) fun y => .of_imp fun _ => ?_
  refine .bind (ensures_optionalValue_eq hstate _) fun objectState => .of_imp fun hwritten => ?_
  refine .bind (ensures_whole_change (hsound.isWhole_move id direction x y objectState swap))
    fun moved => .of_imp_left fun hmoved => ?_
  obtain ⟨-, hdirection, hcolumn, hrow⟩ := hmoved
  refine .bind ensures_recordOf_since fun object => .of_imp fun hobject => ?_
  obtain ⟨hid, -, -, hstate⟩ := hobject
  refine ensures_reports_conclude (written_moveLine hid hcolumn hrow hdirection fun hgiven => ?_)
    "move"
  exact hstate hgiven ▸ hwritten.normalize

/-- **A statement that stores something reports so, or it has changed nothing.** -/
theorem reportsOrFails_plain {node : Node} {action : Run Unit}
    (haction : plain? settings node = some action) (hnode : node.isStatement = true)
    (hstart : node.reportStart? = some start) {state : RunState} (H : state.world.Sound) :
    ReportsOrFails settings node start state (action.run state) := by
  cases node with
  | define name node => cases haction; cases hstart; exact reportsOrFails_define hnode state
  | spawn id x y objectState => cases haction; cases hstart; exact reportsOrFails_spawn hnode H
  | move id x y direction objectState swap =>
    cases haction
    cases hstart
    exact reportsOrFails_move hnode H
  | assign => cases haction
  | _ => cases hstart

theorem ReportsOrFails.bind_pure {β : Type} {node : Node} {state : RunState} {action : Run α}
    (h : ReportsOrFails settings node start state (action.run state)) (b : β) :
    ReportsOrFails settings node start state ((do let _ ← action; return b : Run β).run state) := by
  rw [run_bind]
  generalize action.run state = outcome at h ⊢
  obtain ⟨_ | _, after⟩ := outcome <;> exact h

end Run

namespace Batch

variable {settings : Settings} {options : BatchOptions} {program : List Node}

/-- The same of what a run from start to end does at once with a statement. -/
theorem reportsOrFails_handle {node : Node} {action : Run (List Frame)}
    (haction : handle? settings options node = some action) (hnode : node.isStatement = true)
    {start : String} (hstart : node.reportStart? = some start) {state : RunState}
    (H : state.world.Sound) : ReportsOrFails settings node start state (action.run state) := by
  cases node with
  | assign key node =>
    obtain rfl := Option.some.inj haction
    obtain rfl := Option.some.inj hstart
    exact reportsOrFails_assign (fun value => [Frame.enter key value]) hnode state
  | define | spawn | move =>
    obtain rfl := Option.some.inj haction
    exact (reportsOrFails_plain rfl hnode hstart H).bind_pure []
  | _ => cases hstart

/-- A step of the machine with a statement that stores something. -/
theorem Machine.Holds.reportsOrFails_step {I : RunState → Prop} {machine : Machine}
    (H : machine.Holds (fun node => node.isStatement = true) I) (hsound : machine.state.world.Sound)
    (hsignal : machine.signal = .ok ()) {node : Node} {rest : List Frame}
    (hframes : machine.frames = .statement node :: rest) {start : String}
    (hstart : node.reportStart? = some start) :
    ReportsOrFails settings node start machine.state
      ((machine.step settings options program).signal,
        (machine.step settings options program).state) := by
  obtain ⟨state, jumping, signal, frames⟩ := machine
  subst hsignal hframes
  have hnode : node.isStatement = true := H.frames _ List.mem_cons_self
  obtain ⟨action, haction⟩ : ∃ action, handle? settings options node = some action := by
    cases node with
    | assign | define | spawn | move => exact ⟨_, rfl⟩
    | _ => cases hstart
  have hends := reportsOrFails_handle haction hnode hstart hsound
  have hstep : Machine.step settings options program
      ⟨state, jumping, .ok (), .statement node :: rest⟩ =
        Machine.act ⟨state, jumping, .ok (), .statement node :: rest⟩ action
          (.attempt :: rest) := by
    change Machine.advance settings options program _ rest (.statement node) = _
    rw [advance_statement, haction]
  rw [hstep, Machine.act]
  generalize action.run state = outcome at hends ⊢
  obtain ⟨_ | _, after⟩ := outcome <;> exact hends

end Batch

/-- **Programs store numbers in normal form, and report what they store.** Let a program come from a
text, with any draws, any listener, traced or not. At every moment of a run from start to end on the
empty world, in which loops without end are limited, the variables, the values of keys and the
states of objects are integers of at most 4300 digits or floating point numbers that are not finite
whole ones; so are the variables and the states at all times of a run tick by tick.

When a run is at a statement that sets a variable, binds a key, puts an object on the board or moves
one, then the statement either fails and has only evaluated its expressions, or it goes on, has
reported a line that begins as its reports do, and since its expressions were evaluated the log has
had no line of a fault. -/
theorem stores_of_parseSource {depth : ℕ} {source : String} {program : List Node}
    (h : parseSource depth source = .ok program) (debug : Bool) (listener : Listener)
    (draw : ℕ → Scalar) :
    (∀ options : BatchOptions, options.foreverLimit ≠ .unspecified →
      let settings := Settings.batch debug listener draw
      let outcome := (Batch.run settings options program).run (.start .empty)
      let moment := Batch.Machine.moment settings options program .empty
      (∃ count, moment count = ⟨outcome.2, [], outcome.1, []⟩) ∧
      (∀ count, (moment count).state.world.Stores Scalar.IsNormal) ∧
      ∀ count node rest start, (moment count).signal = .ok () →
        (moment count).frames = .statement node :: rest → node.reportStart? = some start →
        ReportsOrFails settings node start (moment count).state
          ((moment (count + 1)).signal, (moment (count + 1)).state)) ∧
    let settings := Settings.stepwise debug listener draw
    (∀ calls : List Session.Call, Session.Passes settings
      (calls.foldl Session.call (Session.create settings program)).state) ∧
    ∀ state, Session.Passes settings state →
      (state.world.Stores fun _ => True) ∧
      ∀ node action start, node.isStatement = true → plain? settings node = some action →
        node.reportStart? = some start →
        ReportsOrFails settings node start state (action.run state) := by
  have hprogram : ∀ node ∈ program, node.isStatement = true :=
    List.all_eq_true.mp (settles_of_parseSource h).1
  constructor
  · intro options hlimit settings outcome moment
    have hmoment : ∀ count, (moment count).Holds (fun node => node.isStatement = true)
        (IsStored Scalar.IsNormal) :=
      isStored_batch.moment hereditary_isStatement hprogram (World.Stores.empty _)
    refine ⟨?_, fun count => (hmoment count).state, ?_⟩
    · obtain ⟨count, hcount, -⟩ :=
        (Batch.does_run settings hlimit program).reaches (.start .empty) []
      exact ⟨count, hcount⟩
    · intro count node rest start hsignal hframes hstart
      have hnext : moment (count + 1) = (moment count).step settings options program :=
        Batch.Machine.moment_add settings options program .empty count 1
      rw [hnext]
      exact (hmoment count).reportsOrFails_step (hmoment count).state.sound hsignal hframes hstart
  · intro settings
    refine ⟨Session.passes_calls settings hprogram, fun state hstate => ⟨hstate.stores, ?_⟩⟩
    intro node action start hnode haction hstart
    exact reportsOrFails_plain haction hnode hstart hstate.stores.sound

/-- A variable that is squared until it has too many digits, and an object that takes it for its
state whenever its key is bound. -/
def squareSource : String :=
  "canvas 2 1\nref=a(10)\nspawn id=1 x=0 y=0\nif id=1 is assigned w\n..true\n" ++
    ". move id=1 right set=ref(a)\nrepeat 1 13\n. ref=a([mul(ref(a), ref(a))])\n" ++
    ". assign w to id=1\n"

/-- The program of `squareSource`. -/
def squareProgram : List Node :=
  [.canvas (.int 2) (.int 1),
    .define "a" (.number (.int 10)),
    .spawn (.number (.int 1)) (.number (.int 0)) (.number (.int 0)) (.number (.int 0)),
    .branch (.number (.int 1)) "assigned" .absent "w"
      [.move (.number (.int 1)) .absent .absent "right" (.read "a") (.bool false)] [],
    .loop (.int 1) (.int 13)
      [.define "a" (.call "mul" [.read "a", .read "a"]), .assign "w" (.number (.int 1))]]

theorem parseSource_squareSource : parseSource nestingLimit squareSource = .ok squareProgram :=
  parseSource_of_sameAll (by decide +kernel) (by decide +kernel)

theorem stores_of_squareSource :
    (∀ count, (Batch.Machine.moment (.batch false .absent fun _ => .int 0) {} squareProgram .empty
      count).state.world.Stores Scalar.IsNormal) ∧
    Session.Passes (.stepwise true .recording fun _ => .float .nan)
      ([Session.Call.setUp, .step .empty, .pressKey "d"].foldl Session.call
        (Session.create (.stepwise true .recording fun _ => .float .nan) squareProgram)).state := by
  have hlimit : ({} : BatchOptions).foreverLimit ≠ .unspecified := by decide
  exact ⟨((stores_of_parseSource parseSource_squareSource false _ _).1 {} hlimit).2.1,
    (stores_of_parseSource parseSource_squareSource true _ _).2.1 _⟩

end TileScript
