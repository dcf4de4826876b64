import TileScript.Proofs.Run.Mirrors
import TileScript.Proofs.Run.Report
import TileScript.Proofs.Run.SingleLoop

/-!
# Programs run in turn

Two programs run one after the other on one world do what they do as one program, if neither binds
a key that a top-level condition of the other tests. Then a binding finds the same conditions in the
program at hand as in both together, and a jump on a key of the program meets only keys of it. So
the run of both is the run of the first and then that of the second, as actions.

What a run leaves to the next on the same machine is the world and the draws. The log begins anew;
and since no run reads its log, the second goes on as it does in the run of both, where the log is
there already.

## Main definitions

* `Batch.Overlooks`: no condition of a program tests a key that another binds.
* `RunState.resumed`, `Batch.Machine.resume`: what is left to the next run.
* `RunState.after`: a state, with the log and the events of another before its own.

## Main statements

* `Batch.run_append`: the run of two programs as actions one after the other.
* `Batch.runs_in_turn`: two programs run one after the other, and as one program.
-/

namespace TileScript

/-! ## Runs that go on -/

namespace Event

/-- The event with more output before its own. -/
def after (event : Event) (output : String) : Event :=
  { event with output := output ++ event.output }

end Event

namespace RunState

variable (state earlier : RunState)

/-- The state in which another run begins: the world is the same, the draws go on, and nothing is
in the log. -/
def resumed : RunState := { state with log := #[], events := #[] }

/-- The state with the log and the events of another before its own. -/
def after : RunState :=
  { state with
    log := earlier.log ++ state.log
    events := earlier.events ++ state.events.map (·.after earlier.output) }

@[simp] theorem resumed_after_self : state.resumed.after state = state := by
  simp [resumed, after]

@[simp] theorem output_after : (state.after earlier).output = earlier.output ++ state.output := by
  simp [output, after, String.join_append]

theorem event_after (name : String) :
    (state.after earlier).event name = (state.event name).after earlier.output := by
  rw [event, output_after]
  rfl

end RunState

open Run in
/-- A run does not read what is in the log and which events were told before it. -/
theorem RunState.isView_after (settings : Settings) (earlier : RunState) :
    IsView settings settings (·.after earlier) where
  world_eq _ := rfl
  set_world _ _ := rfl
  write_eq state role text _ := by simp [RunState.after, RunState.write]
  mark_eq := rfl
  value node := by
    constructor
    intro state
    rw [run_value, run_value]
    have hsame : evaluation settings node (state.after earlier) = evaluation settings node state :=
      rfl
    rw [valueOf, evaluated, hsame, valueOf, evaluated]
    simp [RunState.after]
  notify name := by
    constructor
    intro state
    cases hlistener : settings.listener with
    | absent => simp [notify, hlistener]
    | recording =>
      simp only [notify, hlistener, run_modify, RunState.event_after]
      simp [RunState.after]
    | failing reason => simp [notify, hlistener, RunState.after, RunState.write]

/-- What is read back from each of its elements is read back from a list. -/
theorem mapM_map_eq_ok {α β : Type} {write : α → β} {read : β → Except Fault α}
    (h : ∀ a, read (write a) = .ok a) (list : List α) :
    (list.map write).mapM read = .ok list := by
  induction list with
  | nil => rfl
  | cons a rest ih =>
    rw [List.map_cons, List.mapM_cons, h, ih]
    rfl

/-- A host that hands on the world of a run as the context of another hands on all of it. -/
theorem World.ofContext_retain (world after : World) :
    World.ofContext ((Context.ofWorld world).retain after) = .ok after := by
  have hobjects : ((Context.ofWorld world).retain after).objects = .ok after.objects := by
    rw [Context.objects, Context.retain, Context.ofWorld]
    simp only [Option.map_some]
    rw [mapM_map_eq_ok]
    · rfl
    · exact fun entry => rfl
  rw [World.ofContext, hobjects]
  rfl

namespace Batch

open Run

variable {settings : Settings} {options : BatchOptions}

/-! ## Jumps in a part of a program -/

/-- No top-level condition of the program tests a key that a statement of the other binds. -/
def Overlooks (program other : List Node) : Prop :=
  ∀ key ∈ assignedKeysAll other, watchers program key = []

theorem watchers_append (first second : List Node) (key : String) :
    watchers (first ++ second) key = watchers first key ++ watchers second key :=
  List.filterMap_append

theorem assignedKeysAll_append (first second : List Node) :
    assignedKeysAll (first ++ second) = assignedKeysAll first ++ assignedKeysAll second := by
  simp only [assignedKeysAll_eq, List.flatMap_append]

/-- A list is gone through in the same way with actions that agree on its elements. -/
theorem forM_congr {α : Type} {list : List α} {action action' : α → Run Unit}
    (h : ∀ a ∈ list, action a = action' a) : list.forM action = list.forM action' := by
  induction list with
  | nil => rfl
  | cons a rest ih =>
    obtain ⟨ha, hrest⟩ := List.forall_mem_cons.mp h
    change (action a >>= fun _ => rest.forM action) = (action' a >>= fun _ => rest.forM action')
    rw [ha, ih hrest]

mutual

/-- A statement depends on the jumps on the keys that it may bind, and on no others. -/
theorem statement_congr {jump jump' : String → Scalar → Run Unit} (node : Node)
    (hjump : ∀ key ∈ assignedKeys node, jump key = jump' key) :
    statement settings options jump node = statement settings options jump' node := by
  cases node with
  | loop delay count body =>
    rw [statement, statement, block_congr body hjump]
  | branch left relation right key whenTrue whenFalse =>
    rw [assignedKeys] at hjump
    rw [statement, statement,
      block_congr whenTrue fun key hkey => hjump key (List.mem_append_left _ hkey),
      block_congr whenFalse fun key hkey => hjump key (List.mem_append_right _ hkey)]
  | assign key node =>
    rw [statement, statement, assign, assign, hjump key (by simp [assignedKeys])]
  | canvas => rw [statement, statement]
  | _ => rfl

theorem block_congr {jump jump' : String → Scalar → Run Unit} (nodes : List Node)
    (hjump : ∀ key ∈ assignedKeysAll nodes, jump key = jump' key) :
    block settings options jump nodes = block settings options jump' nodes := by
  cases nodes with
  | nil => rw [block, block]
  | cons node rest =>
    rw [assignedKeysAll] at hjump
    rw [block, block,
      statement_congr node fun key hkey => hjump key (List.mem_append_left _ hkey),
      block_congr rest fun key hkey => hjump key (List.mem_append_right _ hkey)]

end

/-- A jump on a key of a part, in a program where the keys of the part are tested by the conditions
of the part only. The keys that bindings in the jump meet are keys of the part again. -/
theorem jump_congr {whole part : List Node}
    (hwatchers : ∀ key ∈ assignedKeysAll part, watchers whole key = watchers part key)
    {idle idle' : List String} (hidle : ∀ key ∈ assignedKeysAll part, key ∈ idle ↔ key ∈ idle')
    {key : String} (hkey : key ∈ assignedKeysAll part) :
    jump settings options whole idle key = jump settings options part idle' key := by
  induction hlength : idle.length using Nat.strong_induction_on generalizing idle idle' key with
  | _ n ih =>
    subst hlength
    funext value
    by_cases hmem : key ∈ idle
    · rw [jump_of_mem hmem, jump_of_mem ((hidle key hkey).mp hmem), hwatchers key hkey]
      apply forM_congr
      intro watcher hwatcher
      rw [visit, visit]
      rw [block_congr watcher.2]
      intro key' hkey'
      refine ih _ (length_without_lt hmem) (fun other hother => ?_)
        (assignedKeysAll_watcher_subset hwatcher hkey') rfl
      simp [without, hidle other hother]
    · rw [jump_of_notMem hmem, jump_of_notMem (mt (hidle key hkey).mpr hmem)]

/-- The run of two programs is the run of the first and then that of the second, if neither binds a
key that the other tests. -/
theorem run_append {first second : List Node} (hfirst : Overlooks second first)
    (hsecond : Overlooks first second) :
    run settings options (first ++ second) = (do
      run settings options first
      run settings options second) := by
  have hkeys := assignedKeysAll_append first second
  have hjump : ∀ key ∈ assignedKeysAll first,
      jump settings options (first ++ second) (assignedKeysAll (first ++ second)) key =
        jump settings options first (assignedKeysAll first) key := by
    intro key hkey
    refine jump_congr (fun key hkey => ?_) (fun key hkey => by simp [hkeys, hkey]) hkey
    rw [watchers_append, hfirst key hkey, List.append_nil]
  have hjump' : ∀ key ∈ assignedKeysAll second,
      jump settings options (first ++ second) (assignedKeysAll (first ++ second)) key =
        jump settings options second (assignedKeysAll second) key := by
    intro key hkey
    refine jump_congr (fun key hkey => ?_) (fun key hkey => by simp [hkeys, hkey]) hkey
    rw [watchers_append, hsecond key hkey, List.nil_append]
  rw [run, block_append, block_congr first hjump, block_congr second hjump']
  rfl

/-! ## One machine, one program after the other -/

/-- The machine at the end of a run. -/
def Machine.over (state : RunState) : Machine := ⟨state, [], .ok (), []⟩

/-- The machine at the beginning of another program. The keys being jumped on are as they were. -/
def Machine.resume (machine : Machine) (program : List Node) : Machine :=
  ⟨machine.state.resumed, machine.jumping, .ok (), [.block program]⟩

/-- A program of the grammar runs to its end, on the machine as well. -/
theorem exists_over (settings : Settings) (hlimit : options.foreverLimit ≠ .unspecified)
    {program : List Node} (hprogram : Node.isProgram program = true) (state : RunState) :
    ∃ after, (run settings options program).run state = (.ok (), after) ∧
      ∃ count, (Machine.step settings options program)^[count] (.start program state) =
        .over after := by
  have hhandled : ∀ node ∈ program, (handle? settings options node).isSome := fun node hnode =>
    isSome_handle? (List.all_eq_true.mp hprogram node hnode) settings options
  have hrun : (run settings options program).run state =
      (.ok (), ((run settings options program).run state).2) :=
    Prod.ext (run_eq_ok hlimit hhandled state) rfl
  obtain ⟨count, hcount, -⟩ := (does_run settings hlimit program).reaches state []
  rw [hrun] at hcount
  exact ⟨_, hrun, count, hcount⟩

/-- **Two programs run in turn.** Let two programs have been parsed, neither of which binds a key
that a top-level condition of the other tests, and let loops without end be limited. The first
program run on a world, the second on the world as it is then, and both as one program, all come to
their ends. Both runs leave the same world and have taken as many draws, and the output of the one
program is that of the first followed by that of the second. The two programs may be run on one
machine: the keys being jumped on, which stay with it, are none again at the end of the first. -/
theorem runs_in_turn {depth depth' : ℕ} {source source' : String} {first second : List Node}
    (hfirst : parseSource depth source = .ok first)
    (hsecond : parseSource depth' source' = .ok second)
    (hapart : Overlooks second first) (hapart' : Overlooks first second)
    (settings : Settings) {options : BatchOptions} (hlimit : options.foreverLimit ≠ .unspecified)
    (world : World) :
    ∃ before last whole : RunState,
      (run settings options first).run (.start world) = (.ok (), before) ∧
      World.ofContext ((Context.ofWorld world).retain before.world) = .ok before.world ∧
      (run settings options second).run before.resumed = (.ok (), last) ∧
      (run settings options (first ++ second)).run (.start world) = (.ok (), whole) ∧
      whole.world = last.world ∧ whole.drawn = last.drawn ∧
      whole.output = before.output ++ last.output ∧
      (∃ count, (Machine.step settings options first)^[count] (.start first (.start world)) =
        .over before) ∧
      ∃ count, (Machine.step settings options second)^[count]
        ((Machine.over before).resume second) = .over last := by
  have hprogram := (settles_of_parseSource hfirst).1
  have hprogram' := (settles_of_parseSource hsecond).1
  obtain ⟨before, hbefore, hover⟩ := exists_over settings hlimit hprogram (.start world)
  obtain ⟨last, hlast, hover'⟩ := exists_over settings hlimit hprogram' before.resumed
  have hwhole : (run settings options (first ++ second)).run (.start world) =
      (.ok (), last.after before) := by
    -- The second program goes on with the log of the first, of which the state resumed is a view.
    have hmirrors := ((before.isView_after settings).mirrors_run options second).run_eq
      before.resumed
    rw [RunState.resumed_after_self, hlast] at hmirrors
    rw [run_append hapart hapart', run_bind, hbefore]
    exact hmirrors
  exact ⟨before, last, last.after before, hbefore, World.ofContext_retain _ _, hlast, hwhole, rfl,
    rfl, RunState.output_after _ _, hover, hover'⟩

/-- A program that binds a key to a number, and jumps into the condition before the binding. -/
def keyProgram (key : String) (id : ℤ) : List Node :=
  [.branch (.number (.int id)) "assigned" .absent key
      [.define "a" (.call "random" [.number (.int 1), .number (.int 6)])] [],
    .assign key (.number (.int id))]

/-- The text of `keyProgram` with the words for the key and the number. -/
def keySource (key id : String) : String :=
  "if id=" ++ id ++ " is assigned " ++ key ++ "\n..true\n. ref=a([random(1,6)])\nassign " ++ key ++
    " to id=" ++ id ++ "\n"

theorem parseSource_keySource :
    parseSource nestingLimit (keySource "v" "1") = .ok (keyProgram "v" 1) ∧
    parseSource nestingLimit (keySource "w" "2") = .ok (keyProgram "w" 2) :=
  ⟨parseSource_of_sameAll (by decide +kernel) (by decide +kernel),
    parseSource_of_sameAll (by decide +kernel) (by decide +kernel)⟩

theorem runs_in_turn_keyProgram :
    let settings := Settings.batch true .recording (drawsOfSeed 7)
    ∃ before last whole : RunState,
      (run settings {} (keyProgram "v" 1)).run (.start .empty) = (.ok (), before) ∧
      (run settings {} (keyProgram "w" 2)).run before.resumed = (.ok (), last) ∧
      (run settings {} (keyProgram "v" 1 ++ keyProgram "w" 2)).run (.start .empty) =
        (.ok (), whole) ∧
      whole.world = last.world ∧ whole.drawn = last.drawn ∧
      whole.output = before.output ++ last.output := by
  intro settings
  have hlimit : ({} : BatchOptions).foreverLimit ≠ .unspecified := by decide
  have hapart : Overlooks (keyProgram "w" 2) (keyProgram "v" 1) := by
    unfold Overlooks
    decide +kernel
  have hapart' : Overlooks (keyProgram "v" 1) (keyProgram "w" 2) := by
    unfold Overlooks
    decide +kernel
  obtain ⟨before, last, whole, hbefore, -, hlast, hwhole, hworld, hdrawn, houtput, -⟩ :=
    runs_in_turn parseSource_keySource.1 parseSource_keySource.2 hapart hapart' settings hlimit
      .empty
  exact ⟨before, last, whole, hbefore, hlast, hwhole, hworld, hdrawn, houtput⟩

end Batch

end TileScript
