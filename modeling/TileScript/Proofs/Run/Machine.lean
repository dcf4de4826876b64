import Mathlib.Data.List.Dedup
import Mathlib.Logic.Function.Iterate
import TileScript.Proofs.Run.Invariants

/-!
# Runs from start to end, step by step

A machine that runs a program from start to end in single steps. What is left to do stands in a list
of frames, the innermost first, and beside it the machine has the keys that are being jumped on: a
key is added when a jump on it begins, and taken out when the jump ends or a fault passes through it
on its way to the statement that logs it. So the nesting of jumps, which a run as a function of its
inputs hides in its recursion, is a part of the machine at every moment.

With a limit on loops without end the machine comes to its end on every program, and it does what
`Batch.run` does. Frames are done relative to the keys being jumped on. A jump adds a key, so that
the keys that are still idle get fewer, and this is what the proof goes by.

## Main definitions

* `Batch.Frame`, `Batch.Machine`, `Batch.Machine.step`: the machine.
* `Batch.Machine.Reaches`: getting to a later moment without going below given frames.
* `Batch.Does`: some frames do an action.

## Main statements

* `Batch.does_block`: what the machine does with the statements of a block.
* `Batch.does_jump`: what it does with a jump.
-/

namespace TileScript.Batch

open Run

/-! ## The machine -/

/-- Something that is left to do. -/
inductive Frame where
  /-- The statements of a block, in turn. -/
  | block (nodes : List Node)
  /-- A statement. -/
  | statement (node : Node)
  /-- The end of a statement, where a fault is logged and goes no further. -/
  | attempt
  /-- A line of a report. -/
  | say (pieces : List Scalar)
  /-- The rounds of a loop from an index on; nothing in place of their number is no end. -/
  | rounds (label : String) (delay : Scalar) (body : List Node) (index : ℕ) (left : Option ℕ)
  /-- What binding a key to a value does beyond the binding itself. -/
  | enter (key : String) (value : Scalar)
  /-- A jump on a key for a value, and the conditions that are left to test. -/
  | jump (key : String) (value : Scalar) (watchers : List (Node × List Node))

/-- A moment of a run: the state, the keys being jumped on, whether a stop is on its way, and what
is left to do. -/
structure Machine where
  state : RunState
  jumping : List String
  signal : Except Stop Unit
  frames : List Frame

/-- What is left to do of a loop. -/
def loopFrames (options : BatchOptions) (delay count : Scalar) (body : List Node) :
    Except Fault (List Frame) :=
  if count.same "forever" then do
    match ← foreverTimes options.foreverLimit with
    | none => return [.rounds "∞" delay body 0 none]
    | some limit =>
      return [.rounds "∞" delay body 0 (some limit),
        .say ["Repeat forever stopped after ", .int limit, " iterations"]]
  else do
    let rounds ← times options count
    return [.rounds (toString rounds) delay body 0 (some rounds)]

/-- The beginning of a round, and what is left to do then, with the rounds after it. -/
def openRound (label : String) (delay : Scalar) (body : List Node) (index : ℕ)
    (left : Option ℕ) : Run (List Frame) := do
  emit ["Repeat iteration ", .int (index + 1), "/", label, " (delay ", delay, " ms)"]
  return [.block body, .say ["Waited ", delay, " ms"],
    .rounds label delay body (index + 1) left]

/-- What a statement does at once, and what is left to do of it then. -/
def handle? (settings : Settings) (options : BatchOptions) : Node → Option (Run (List Frame))
  | .canvas width height => some do
    canvas settings width height
    return []
  | .loop delay count body => some (ofExcept (loopFrames options delay count body))
  | .branch left relation right key whenTrue whenFalse => some do
    let (holds, words) ← condition settings left relation right key
    emit (.text "If condition (" :: words ++ [.text ") is ", .text (truthText holds)])
    return [.block (if holds then whenTrue else whenFalse)]
  | .assign key node => some do
    let value ← value settings node
    setAssignment key value
    emit ["Assigned key '", key, "' to value ", value]
    return [.enter key value]
  | node => (plain? settings node).map fun action => do
    action
    return []

namespace Machine

/-- The machine before a run. -/
def start (program : List Node) (state : RunState) : Machine :=
  ⟨state, [], .ok (), [.block program]⟩

/-- Does an action that says what is to be done before the given frames. -/
def act (machine : Machine) (action : Run (List Frame)) (rest : List Frame) : Machine :=
  match action.run machine.state with
  | (.ok frames, state) => { machine with state, frames := frames ++ rest }
  | (.error stop, state) => { machine with state, signal := .error stop, frames := rest }

/-- A step with the innermost frame. -/
def advance (settings : Settings) (options : BatchOptions) (program : List Node)
    (machine : Machine) (rest : List Frame) : Frame → Machine
  | .block [] => { machine with frames := rest }
  | .block (node :: nodes) =>
    { machine with frames := .statement node :: .block nodes :: rest }
  | .statement node =>
    match handle? settings options node with
    | some action => machine.act action (.attempt :: rest)
    | none => machine.act (do unknown settings node; return []) rest
  | .attempt => { machine with frames := rest }
  | .say pieces => machine.act (do emit pieces; return []) rest
  | .rounds _ _ _ _ (some 0) => { machine with frames := rest }
  | .rounds label delay body index (some (left + 1)) =>
    machine.act (openRound label delay body index (some left)) rest
  | .rounds label delay body index none =>
    machine.act (openRound label delay body index none) rest
  | .enter key value =>
    if key ∈ machine.jumping then
      machine.act (do
        logError settings ("Skipping nested assign-jump for key '" ++ key ++ "'")
        return []) rest
    else
      { machine with
        jumping := key :: machine.jumping
        frames := .jump key value (watchers program key) :: rest }
  | .jump key _ [] => { machine with jumping := machine.jumping.erase key, frames := rest }
  | .jump key value ((left, whenTrue) :: others) =>
    machine.act (do
      let id ← Run.value settings left
      if id.same value then
        emit ["(assign-jump) If condition (assigned ", key, ") is true"]
        return [.block whenTrue]
      else return []) (.jump key value others :: rest)

/-- A step of a stop on its way through the innermost frame. -/
def unwind (settings : Settings) (machine : Machine) (stop : Stop) (rest : List Frame) :
    Frame → Machine
  | .attempt =>
    match stop with
    | .fault fault =>
      { machine with
        state := ((report settings fault).run machine.state).2, signal := .ok (), frames := rest }
    | .endless => { machine with frames := rest }
  | .jump key _ _ => { machine with jumping := machine.jumping.erase key, frames := rest }
  | _ => { machine with frames := rest }

/-- One step. Without frames there is nothing to do. -/
def step (settings : Settings) (options : BatchOptions) (program : List Node)
    (machine : Machine) : Machine :=
  match machine.frames, machine.signal with
  | [], _ => machine
  | frame :: rest, .ok () => machine.advance settings options program rest frame
  | frame :: rest, .error stop => machine.unwind settings stop rest frame

/-! ## Getting to a later moment -/

/-- Some steps lead from one moment to the other, and before each of them there are frames above the
given ones, which are not touched. -/
def Reaches (settings : Settings) (options : BatchOptions) (program : List Node)
    (base : List Frame) (machine after : Machine) : Prop :=
  ∃ count, (step settings options program)^[count] machine = after ∧
    ∀ index < count, ∃ above, above ≠ [] ∧
      ((step settings options program)^[index] machine).frames = above ++ base

variable {settings : Settings} {options : BatchOptions} {program : List Node}

namespace Reaches

variable {base : List Frame} {machine middle after : Machine}

theorem refl (machine : Machine) : Reaches settings options program base machine machine :=
  ⟨0, rfl, by simp⟩

theorem trans (h : Reaches settings options program base machine middle)
    (h' : Reaches settings options program base middle after) :
    Reaches settings options program base machine after := by
  obtain ⟨m, rfl, hm⟩ := h
  obtain ⟨n, rfl, hn⟩ := h'
  refine ⟨n + m, Function.iterate_add_apply _ n m machine, fun index hindex => ?_⟩
  by_cases hlt : index < m
  · exact hm index hlt
  · obtain ⟨later, rfl⟩ := Nat.exists_eq_add_of_le (Nat.le_of_not_lt hlt)
    rw [Nat.add_comm m later, Function.iterate_add_apply]
    exact hn later (by omega)

/-- The frames below may be said with fewer of them. -/
theorem of_append (frames : List Frame)
    (h : Reaches settings options program (frames ++ base) machine after) :
    Reaches settings options program base machine after := by
  obtain ⟨count, hcount, habove⟩ := h
  refine ⟨count, hcount, fun index hindex => ?_⟩
  obtain ⟨above, hne, hframes⟩ := habove index hindex
  exact ⟨above ++ frames, by simp [hne], by rw [hframes, List.append_assoc]⟩

/-- A step with a frame above the given ones. -/
theorem head {frame : Frame} (frames : List Frame)
    (hframes : machine.frames = frame :: frames ++ base)
    (h : Reaches settings options program base (machine.step settings options program) after) :
    Reaches settings options program base machine after := by
  obtain ⟨count, hcount, habove⟩ := h
  refine ⟨count + 1, hcount, fun index hindex => ?_⟩
  cases index with
  | zero => exact ⟨frame :: frames, by simp, hframes⟩
  | succ index => exact habove index (by omega)

end Reaches

end Machine

open Machine

/-! ## What frames do -/

/-- While the given keys are being jumped on, the frames do the action. -/
structure Does (settings : Settings) (options : BatchOptions) (program : List Node)
    (jumping : List String) (frames : List Frame) (action : Run Unit) : Prop where
  reaches : ∀ state base,
    Reaches settings options program base ⟨state, jumping, .ok (), frames ++ base⟩
      ⟨(action.run state).2, jumping, (action.run state).1, base⟩

/-- A stop passes through the frames. -/
structure Unwinds (settings : Settings) (options : BatchOptions) (program : List Node)
    (jumping : List String) (frames : List Frame) : Prop where
  reaches : ∀ state stop base, Reaches settings options program base
    ⟨state, jumping, .error stop, frames ++ base⟩ ⟨state, jumping, .error stop, base⟩

/-- Doing the first action and then what it says is left to do is the second action. -/
structure Opens (settings : Settings) (options : BatchOptions) (program : List Node)
    (jumping : List String) (action : Run (List Frame)) (whole : Run Unit) : Prop where
  opens : ∀ state, match action.run state with
    | (.ok frames, after) => ∃ next, Does settings options program jumping frames next ∧
        whole.run state = next.run after
    | (.error stop, after) => whole.run state = (.error stop, after)

variable {settings : Settings} {options : BatchOptions} {program : List Node}
  {jumping : List String}

namespace Does

theorem nil : Does settings options program jumping [] (pure ()) := ⟨fun _ _ => .refl _⟩

/-- Frames are done one after the other; a stop passes through those that are left. -/
theorem append {first second : List Frame} {action next : Run Unit}
    (h : Does settings options program jumping first action)
    (hnext : Does settings options program jumping second next)
    (hunwinds : Unwinds settings options program jumping second) :
    Does settings options program jumping (first ++ second) (action >>= fun _ => next) := by
  refine ⟨fun state base => ?_⟩
  have hfirst := (h.reaches state (second ++ base)).of_append second
  rw [List.append_assoc]
  refine hfirst.trans ?_
  rw [run_bind]
  generalize action.run state = outcome
  obtain ⟨result, after⟩ := outcome
  cases result with
  | ok a => exact hnext.reaches after base
  | error stop => exact hunwinds.reaches after stop base

end Does

/-- At the end of a statement a fault is logged. -/
theorem reaches_attempt (action : Run Unit) (state : RunState) (base : List Frame) :
    Reaches settings options program base
      ⟨(action.run state).2, jumping, (action.run state).1, .attempt :: base⟩
      ⟨((attempt settings action).run state).2, jumping, ((attempt settings action).run state).1,
        base⟩ := by
  refine .head [] rfl ?_
  rw [Run.attempt, run_tryCatch]
  generalize action.run state = outcome
  obtain ⟨result, after⟩ := outcome
  cases result with
  | ok a => exact .refl _
  | error stop =>
    cases stop with
    | endless => exact .refl _
    | fault fault =>
      have hreport : (report settings fault).run after =
          (.ok (), ((report settings fault).run after).2) := by
        rw [report]
        split <;> rfl
      dsimp only
      rw [hreport]
      exact .refl _

namespace Opens

theorem pure {frames : List Frame} {action : Run Unit}
    (h : Does settings options program jumping frames action) :
    Opens settings options program jumping (pure frames) action :=
  ⟨fun _ => ⟨action, h, rfl⟩⟩

theorem throw (stop : Stop) :
    Opens settings options program jumping (throw stop) (throw stop) :=
  ⟨fun _ => rfl⟩

/-- What comes before is the same on both sides. -/
theorem bind {α : Type} {first : Run α} {action : α → Run (List Frame)} {whole : α → Run Unit}
    (h : ∀ a, Opens settings options program jumping (action a) (whole a)) :
    Opens settings options program jumping (first >>= action) (first >>= whole) := by
  refine ⟨fun state => ?_⟩
  rw [run_bind, run_bind]
  generalize first.run state = outcome
  obtain ⟨result, after⟩ := outcome
  cases result with
  | ok a => exact (h a).opens after
  | error stop => rfl

theorem ite {condition : Prop} [Decidable condition] {yes no : Run (List Frame)}
    {yes' no' : Run Unit} (hyes : Opens settings options program jumping yes yes')
    (hno : Opens settings options program jumping no no') :
    Opens settings options program jumping (if condition then yes else no)
      (if condition then yes' else no') := by
  split
  · exact hyes
  · exact hno

/-- An action with nothing left to do. -/
theorem of_action (action : Run Unit) :
    Opens settings options program jumping (do action; return []) action := by
  have hwhole : action = action >>= fun _ => Pure.pure () := (bind_pure_unit).symm
  rw [hwhole]
  simp only [bind_assoc, pure_bind]
  exact bind fun _ => pure .nil

/-- A frame whose step is an action does what the action opens. -/
theorem reaches {action : Run (List Frame)} {whole : Run Unit}
    (h : Opens settings options program jumping action whole) (state : RunState)
    (base frames : List Frame) :
    Reaches settings options program base (act ⟨state, jumping, .ok (), frames⟩ action base)
      ⟨(whole.run state).2, jumping, (whole.run state).1, base⟩ := by
  have hopens := h.opens state
  rw [act]
  generalize action.run state = outcome at hopens ⊢
  obtain ⟨result, after⟩ := outcome
  cases result with
  | ok pushed =>
    obtain ⟨next, hnext, hrun⟩ := hopens
    rw [hrun]
    exact hnext.reaches after base
  | error stop =>
    rw [show whole.run state = (.error stop, after) from hopens]
    exact .refl _

end Opens

/-! ## Single frames -/

/-- A frame whose step is an action does what the action opens. -/
theorem Does.of_opens {frame : Frame} {whole : Run Unit} (action : Run (List Frame))
    (hadvance : ∀ machine rest,
      advance settings options program machine rest frame = machine.act action rest)
    (h : Opens settings options program jumping action whole) :
    Does settings options program jumping [frame] whole := by
  refine ⟨fun state base => .head [] rfl ?_⟩
  change Reaches settings options program base
    (advance settings options program ⟨state, jumping, .ok (), frame :: base⟩ base frame) _
  rw [hadvance]
  exact h.reaches state base _

theorem does_say (pieces : List Scalar) :
    Does settings options program jumping [.say pieces] (emit pieces) :=
  .of_opens (do emit pieces; return []) (fun _ _ => rfl) (.of_action _)

theorem advance_statement (machine : Machine) (rest : List Frame) (node : Node) :
    advance settings options program machine rest (.statement node) =
      match handle? settings options node with
      | some action => machine.act action (.attempt :: rest)
      | none => machine.act (do unknown settings node; return []) rest := rfl

theorem advance_rounds_succ (machine : Machine) (rest : List Frame) (label : String)
    (delay : Scalar) (body : List Node) (index left : ℕ) :
    advance settings options program machine rest
        (.rounds label delay body index (some (left + 1))) =
      machine.act (openRound label delay body index (some left)) rest := rfl

theorem advance_rounds_none (machine : Machine) (rest : List Frame) (label : String)
    (delay : Scalar) (body : List Node) (index : ℕ) :
    advance settings options program machine rest
        (.rounds label delay body index none) =
      machine.act (openRound label delay body index none) rest := rfl

theorem advance_enter (machine : Machine) (rest : List Frame) (key : String) (value : Scalar) :
    advance settings options program machine rest (.enter key value) =
      if key ∈ machine.jumping then
        machine.act (do
          logError settings ("Skipping nested assign-jump for key '" ++ key ++ "'")
          return []) rest
      else
        { machine with
          jumping := key :: machine.jumping
          frames := .jump key value (watchers program key) :: rest } := rfl

/-- A statement does what its handler opens, and logs its fault. -/
theorem does_handled {node : Node} {action : Run (List Frame)} {whole : Run Unit}
    (hhandle : handle? settings options node = some action)
    (h : Opens settings options program jumping action whole) :
    Does settings options program jumping [.statement node] (attempt settings whole) := by
  refine ⟨fun state base => .head [] rfl ?_⟩
  change Reaches settings options program base
    (advance settings options program ⟨state, jumping, .ok (), _⟩ base (.statement node)) _
  rw [advance_statement, hhandle]
  exact ((h.reaches state (.attempt :: base) _).of_append [.attempt]).trans
    (reaches_attempt whole state base)

theorem does_unhandled {node : Node} (hhandle : handle? settings options node = none) :
    Does settings options program jumping [.statement node] (unknown settings node) :=
  .of_opens (do unknown settings node; return [])
    (fun _ _ => by rw [advance_statement, hhandle]) (.of_action _)

/-- A stop passes through what is neither the end of a statement nor a jump. -/
theorem Unwinds.cons {frame : Frame} {frames : List Frame}
    (hframe : ∀ machine stop rest,
      unwind settings machine stop rest frame = { machine with frames := rest })
    (h : Unwinds settings options program jumping frames) :
    Unwinds settings options program jumping (frame :: frames) := by
  refine ⟨fun state stop base => .head frames rfl ?_⟩
  change Reaches settings options program base
    (unwind settings ⟨state, jumping, .error stop, _⟩ stop (frames ++ base) frame) _
  rw [hframe]
  exact h.reaches state stop base

theorem Unwinds.nil : Unwinds settings options program jumping [] := ⟨fun _ _ _ => .refl _⟩

/-! ## Loops -/

/-- What is left to do of a loop are its rounds, from the first one on, and a line. -/
theorem exists_of_mem_loopFrames {delay count : Scalar} {body : List Node} {frames : List Frame}
    (h : loopFrames options delay count body = .ok frames) {frame : Frame}
    (hframe : frame ∈ frames) :
    (∃ label left, frame = .rounds label delay body 0 left) ∨ ∃ pieces, frame = .say pieces := by
  rw [loopFrames] at h
  split at h
  · obtain ⟨times, -, h⟩ := bind_eq_ok_iff.mp h
    cases times with
    | none =>
      cases h
      exact .inl ⟨_, _, List.mem_singleton.mp hframe⟩
    | some limit =>
      cases h
      rcases List.mem_cons.mp hframe with hrounds | hsay
      · exact .inl ⟨_, _, hrounds⟩
      · exact .inr ⟨_, List.mem_singleton.mp hsay⟩
  · obtain ⟨rounds, -, h⟩ := bind_eq_ok_iff.mp h
    cases h
    exact .inl ⟨_, _, List.mem_singleton.mp hframe⟩

theorem does_rounds {body : List Node} {action : Run Unit}
    (hbody : Does settings options program jumping [.block body] action) (label : String)
    (delay : Scalar) (index left : ℕ) :
    Does settings options program jumping [.rounds label delay body index (some left)]
      (iterate (round label delay action) index left) := by
  induction left generalizing index with
  | zero => exact ⟨fun state base => .head [] rfl (.refl _)⟩
  | succ left ih =>
    rw [iterate, round]
    simp only [bind_assoc]
    refine .of_opens (openRound label delay body index (some left)) (fun _ _ => rfl) ?_
    rw [openRound]
    refine .bind fun _ => .pure ?_
    have hlast : Unwinds settings options program jumping
        [.rounds label delay body (index + 1) (some left)] := .cons (fun _ _ _ => rfl) .nil
    exact hbody.append ((does_say _).append (ih (index + 1)) hlast) (.cons (fun _ _ _ => rfl) hlast)

theorem opens_loop (hlimit : options.foreverLimit ≠ .unspecified) {body : List Node}
    {action : Run Unit} (hbody : Does settings options program jumping [.block body] action)
    (delay count : Scalar) :
    Opens settings options program jumping (ofExcept (loopFrames options delay count body))
      (loop options delay count action) := by
  rw [loopFrames, loop]
  split
  · cases htimes : foreverTimes options.foreverLimit with
    | error fault => exact .throw _
    | ok times =>
      cases times with
      | none => exact absurd (foreverTimes_eq_none htimes) hlimit
      | some limit =>
        exact .pure ((does_rounds hbody _ _ _ _).append (does_say _)
          (.cons (fun _ _ _ => rfl) .nil))
  · cases times options count with
    | error fault => exact .throw _
    | ok rounds => exact .pure (does_rounds hbody _ _ _ _)

/-! ## Statements -/

theorem does_branch {whenTrue whenFalse : List Node} {yes no : Run Unit}
    (hyes : Does settings options program jumping [.block whenTrue] yes)
    (hno : Does settings options program jumping [.block whenFalse] no) (left : Node)
    (relation : Scalar) (right : Node) (key : Scalar) :
    Does settings options program jumping
      [.statement (.branch left relation right key whenTrue whenFalse)]
      (attempt settings (branch settings left relation right key yes no)) := by
  refine does_handled rfl ?_
  rw [branch]
  refine .bind fun tested => ?_
  obtain ⟨holds, words⟩ := tested
  refine .bind fun _ => .pure ?_
  cases holds with
  | true => exact hyes
  | false => exact hno

mutual

/-- A statement is done if the jumps that it may make are. -/
theorem does_statement (hlimit : options.foreverLimit ≠ .unspecified)
    {jump : String → Scalar → Run Unit} (node : Node)
    (hjump : ∀ key ∈ assignedKeys node, ∀ value,
      Does settings options program jumping [.enter key value] (jump key value)) :
    Does settings options program jumping [.statement node]
      (statement settings options jump node) := by
  cases node with
  | canvas width height =>
    rw [statement]
    exact does_handled rfl (.of_action _)
  | loop delay count body =>
    rw [statement]
    exact does_handled rfl (opens_loop hlimit (does_block hlimit body hjump) _ _)
  | branch left relation right key whenTrue whenFalse =>
    rw [statement]
    rw [assignedKeys] at hjump
    exact does_branch
      (does_block hlimit whenTrue fun key hkey => hjump key (List.mem_append_left _ hkey))
      (does_block hlimit whenFalse fun key hkey => hjump key (List.mem_append_right _ hkey))
      left relation right key
  | assign key node =>
    rw [statement, assign]
    exact does_handled rfl (.bind fun value => .bind fun _ => .bind fun _ =>
      .pure (hjump key (by simp [assignedKeys]) value))
  | define | compute | spawn | despawn | move | wait =>
    rw [statement_of_plain rfl]
    exact does_handled rfl (.of_action _)
  | _ => exact does_unhandled rfl

theorem does_block (hlimit : options.foreverLimit ≠ .unspecified)
    {jump : String → Scalar → Run Unit} (nodes : List Node)
    (hjump : ∀ key ∈ assignedKeysAll nodes, ∀ value,
      Does settings options program jumping [.enter key value] (jump key value)) :
    Does settings options program jumping [.block nodes] (block settings options jump nodes) := by
  cases nodes with
  | nil =>
    rw [block]
    exact ⟨fun state base => .head [] rfl (.refl _)⟩
  | cons node rest =>
    rw [assignedKeysAll] at hjump
    have hnode := does_statement hlimit node fun key hkey => hjump key (List.mem_append_left _ hkey)
    have hrest := does_block hlimit rest fun key hkey => hjump key (List.mem_append_right _ hkey)
    rw [block]
    exact ⟨fun state base => .head [] rfl
      ((hnode.append hrest (.cons (fun _ _ _ => rfl) .nil)).reaches state base)⟩

end

/-! ## Jumps -/

/-- A condition in a jump: if it is about the value, its block is run in the given way. -/
def visit (settings : Settings) (key : String) (value : Scalar) (run : List Node → Run Unit)
    (watcher : Node × List Node) : Run Unit := do
  let id ← Run.value settings watcher.1
  if id.same value then
    emit ["(assign-jump) If condition (assigned ", key, ") is true"]
    run watcher.2

theorem jump_of_mem {idle : List String} {key : String} (hkey : key ∈ idle) (value : Scalar) :
    jump settings options program idle key value = (watchers program key).forM
      (visit settings key value
        (block settings options (jump settings options program (without idle key)))) := by
  rw [jump, dif_pos hkey]
  rfl

theorem jump_of_notMem {idle : List String} {key : String} (hkey : key ∉ idle) (value : Scalar) :
    jump settings options program idle key value =
      logError settings ("Skipping nested assign-jump for key '" ++ key ++ "'") := by
  rw [jump, dif_neg hkey]

/-- The conditions of a jump are tested in turn. Whatever ends it, its key is idle again. -/
theorem reaches_jump {key : String} {value : Scalar} {run : List Node → Run Unit}
    (watchers : List (Node × List Node))
    (hrun : ∀ watcher ∈ watchers,
      Does settings options program (key :: jumping) [.block watcher.2] (run watcher.2))
    (state : RunState) (base : List Frame) :
    Reaches settings options program base
      ⟨state, key :: jumping, .ok (), .jump key value watchers :: base⟩
      ⟨((watchers.forM (visit settings key value run)).run state).2, jumping,
        ((watchers.forM (visit settings key value run)).run state).1, base⟩ := by
  have herase : (key :: jumping).erase key = jumping := List.erase_cons_head key jumping
  induction watchers generalizing state with
  | nil =>
    refine .head [] rfl ?_
    change Reaches settings options program base
      ⟨state, (key :: jumping).erase key, .ok (), base⟩ ⟨state, jumping, .ok (), base⟩
    rw [herase]
    exact .refl _
  | cons watcher rest ih =>
    obtain ⟨hwatcher, hrest⟩ := List.forall_mem_cons.mp hrun
    have hopens : Opens settings options program (key :: jumping)
        (do
          let id ← Run.value settings watcher.1
          if id.same value then
            emit ["(assign-jump) If condition (assigned ", key, ") is true"]
            return [.block watcher.2]
          else return [])
        (visit settings key value run watcher) :=
      .bind fun _ => .ite (.bind fun _ => .pure hwatcher) (.pure .nil)
    refine .head [] rfl (((hopens.reaches state (.jump key value rest :: base) _).of_append
      [.jump key value rest]).trans ?_)
    rw [run_forM_cons]
    generalize (visit settings key value run watcher).run state = outcome
    obtain ⟨result, after⟩ := outcome
    cases result with
    | ok a => exact ih hrest after
    | error stop =>
      refine .head [] rfl ?_
      change Reaches settings options program base
        ⟨after, (key :: jumping).erase key, .error stop, base⟩ ⟨after, jumping, .error stop, base⟩
      rw [herase]
      exact .refl _

theorem assignedKeysAll_eq (nodes : List Node) :
    assignedKeysAll nodes = nodes.flatMap assignedKeys := by
  induction nodes with
  | nil => rw [assignedKeysAll, List.flatMap_nil]
  | cons node rest ih => rw [assignedKeysAll, List.flatMap_cons, ih]

/-- The keys that the block of a condition binds are keys of the program. -/
theorem assignedKeysAll_watcher_subset {key : String} {watcher : Node × List Node}
    (h : watcher ∈ watchers program key) :
    assignedKeysAll watcher.2 ⊆ assignedKeysAll program := by
  obtain ⟨node, hnode, hwatcher⟩ := List.mem_filterMap.mp h
  intro key' hkey'
  split at hwatcher
  · next left relation right tested whenTrue whenFalse =>
    rw [Option.ite_none_right_eq_some] at hwatcher
    obtain rfl : (left, whenTrue) = watcher := Option.some.inj hwatcher.2
    rw [assignedKeysAll_eq]
    refine List.mem_flatMap.mpr ⟨_, hnode, ?_⟩
    rw [assignedKeys]
    exact List.mem_append_left _ hkey'
  · cases hwatcher

/-- The idle keys are those of the program that are not being jumped on. -/
def IdleApart (program : List Node) (idle jumping : List String) : Prop :=
  ∀ key ∈ assignedKeysAll program, key ∈ idle ↔ key ∉ jumping

theorem IdleApart.without {idle : List String} (h : IdleApart program idle jumping) (key : String) :
    IdleApart program (without idle key) (key :: jumping) := by
  intro other hother
  simp [Batch.without, h other hother, and_comm]

/-- What binding a key does beyond the binding: a jump, unless the key is being jumped on. -/
theorem does_jump (hlimit : options.foreverLimit ≠ .unspecified) {idle jumping : List String}
    (hidle : IdleApart program idle jumping) {key : String} (hkey : key ∈ assignedKeysAll program)
    (value : Scalar) :
    Does settings options program jumping [.enter key value]
      (jump settings options program idle key value) := by
  induction hlength : idle.length using Nat.strong_induction_on
    generalizing idle jumping key value with
  | _ n ih =>
    subst hlength
    refine ⟨fun state base => .head [] rfl ?_⟩
    change Reaches settings options program base
      (advance settings options program ⟨state, jumping, .ok (), _⟩ base (.enter key value)) _
    rw [advance_enter]
    by_cases hmem : key ∈ idle
    · rw [if_neg ((hidle key hkey).mp hmem), jump_of_mem hmem]
      refine reaches_jump _ (fun watcher hwatcher => ?_) state base
      -- The blocks of the jump run while one more key is being jumped on.
      refine does_block hlimit watcher.2 fun key' hkey' value' => ?_
      exact ih _ (length_without_lt hmem) (hidle.without key)
        (assignedKeysAll_watcher_subset hwatcher hkey') value' rfl
    · have hjumping : key ∈ jumping := by_contra fun hnot => hmem ((hidle key hkey).mpr hnot)
      rw [if_pos hjumping, jump_of_notMem hmem]
      exact (Opens.of_action _).reaches state base _

end TileScript.Batch
