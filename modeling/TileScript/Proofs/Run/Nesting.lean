import Mathlib.Data.List.Perm.Subperm
import TileScript.Proofs.Run.Keeps
import TileScript.Proofs.Run.Machine

/-!
# Runs from start to end have an end

With a limit on loops without end, the machine that runs a program from start to end stops on every
program. At every moment the jumps that are nested in each other have different keys, each of which
some statement of the program binds, so that they are nested no deeper than there are such keys. And
whatever a statement does, the keys being jumped on are the same after it as before.

## Main definitions

* `Batch.Machine.jumpKeys`: the keys of the jumps in progress, the innermost first.
* `Batch.Machine.Orderly`: what holds of the machine at every moment.

## Main statements

* `Batch.Machine.Orderly.step`: one step keeps the machine in order.
* `Batch.run_ends`: every run ends, its jumps nested with different keys.
-/

namespace TileScript.Batch

open Run Machine

variable {settings : Settings} {options : BatchOptions} {program : List Node}

/-! ## The keys of frames -/

/-- The key of a jump in progress. -/
def Frame.key? : Frame → Option String
  | .jump key _ _ => some key
  | _ => none

/-- The keys that a frame may bind, and that of a jump. -/
def Frame.keys : Frame → List String
  | .block nodes => assignedKeysAll nodes
  | .statement node => assignedKeys node
  | .rounds _ _ body _ _ => assignedKeysAll body
  | .enter key _ => [key]
  | .jump key _ watchers => key :: watchers.flatMap fun watcher => assignedKeysAll watcher.2
  | .attempt | .say _ => []

/-- The keys of the jumps in progress, the innermost first. -/
def Machine.jumpKeys (machine : Machine) : List String := machine.frames.filterMap Frame.key?

/-- The keys being jumped on are those of the jumps in progress, they are distinct, and no frame
binds a key that the program does not bind. -/
structure Machine.Orderly (program : List Node) (machine : Machine) : Prop where
  jumping_eq : machine.jumping = machine.jumpKeys
  nodup : machine.jumping.Nodup
  known : ∀ frame ∈ machine.frames, frame.keys ⊆ assignedKeysAll program

/-- Frames that are no jumps and bind only the given keys. -/
def AreFresh (keys : List String) (frames : List Frame) : Prop :=
  ∀ frame ∈ frames, frame.key? = none ∧ frame.keys ⊆ keys

theorem areFresh_nil (keys : List String) : AreFresh keys [] := by simp [AreFresh]

theorem AreFresh.mono {keys keys' : List String} {frames : List Frame} (h : AreFresh keys frames)
    (hkeys : keys ⊆ keys') : AreFresh keys' frames :=
  fun frame hframe => ⟨(h frame hframe).1, fun _ hkey => hkeys ((h frame hframe).2 hkey)⟩

theorem AreFresh.filterMap_key? {keys : List String} {frames : List Frame}
    (h : AreFresh keys frames) : frames.filterMap Frame.key? = [] :=
  List.filterMap_eq_nil_iff.mpr fun frame hframe => (h frame hframe).1

/-- Every action ends somehow. -/
theorem ensures_true {α : Type} (action : Run α) :
    Ensures (fun _ => True) action (fun _ _ => True) fun _ _ => True := by
  refine ⟨fun state _ => ?_⟩
  obtain ⟨_ | _, after⟩ := action.run state <;> trivial

/-- The action leaves only fresh frames to do. -/
def OpensFresh (keys : List String) (action : Run (List Frame)) : Prop :=
  Ensures (fun _ => True) action (fun frames _ => AreFresh keys frames) fun _ _ => True

namespace OpensFresh

variable {keys : List String}

theorem pure {frames : List Frame} (h : AreFresh keys frames) : OpensFresh keys (pure frames) :=
  Ensures.pure fun _ _ => h

theorem bind {α : Type} {first : Run α} {action : α → Run (List Frame)}
    (h : ∀ a, OpensFresh keys (action a)) : OpensFresh keys (first >>= action) :=
  (ensures_true first).bind h

theorem ite {condition : Prop} [Decidable condition] {yes no : Run (List Frame)}
    (hyes : OpensFresh keys yes) (hno : OpensFresh keys no) :
    OpensFresh keys (if condition then yes else no) := by
  split
  · exact hyes
  · exact hno

theorem mono {keys' : List String} {action : Run (List Frame)} (h : OpensFresh keys action)
    (hkeys : keys ⊆ keys') : OpensFresh keys' action :=
  Ensures.mono h (fun _ _ => trivial) (fun _ _ hframes => hframes.mono hkeys) fun _ _ _ => trivial

theorem of_action (action : Run Unit) : OpensFresh keys (do action; return []) :=
  bind fun _ => pure (areFresh_nil keys)

end OpensFresh

/-- What is left to do of a statement binds only keys of the statement. -/
theorem opensFresh_handle {node : Node} {action : Run (List Frame)}
    (h : handle? settings options node = some action) : OpensFresh (assignedKeys node) action := by
  cases node with
  | canvas width height => cases h; exact .of_action _
  | loop delay count body =>
    cases h
    rw [assignedKeys]
    cases hloop : loopFrames options delay count body with
    | error fault => exact .throw fun _ _ => trivial
    | ok frames =>
      refine .pure fun frame hframe => ?_
      obtain ⟨label, left, rfl⟩ | ⟨pieces, rfl⟩ := exists_of_mem_loopFrames hloop hframe
      · simp [Frame.key?, Frame.keys]
      · simp [Frame.key?, Frame.keys]
  | branch left relation right key whenTrue whenFalse =>
    cases h
    rw [assignedKeys]
    refine .bind fun tested => ?_
    obtain ⟨holds, words⟩ := tested
    refine .bind fun _ => .pure ?_
    cases holds <;> simp [AreFresh, Frame.key?, Frame.keys]
  | assign key node =>
    cases h
    exact .bind fun _ => .bind fun _ => .bind fun _ => .pure
      (by simp [AreFresh, Frame.key?, Frame.keys, assignedKeys])
  | define | compute | spawn | despawn | move | wait => cases h; exact .of_action _
  | _ => cases h

/-! ## One step -/

namespace Machine.Orderly

variable {state : RunState} {jumping : List String} {signal : Except Stop Unit}
  {frame : Frame} {frames rest : List Frame} {key : String} {value : Scalar}
  {watchers : List (Node × List Node)}

theorem tail (H : Orderly program ⟨state, jumping, signal, frame :: rest⟩) :
    ∀ frame ∈ rest, frame.keys ⊆ assignedKeysAll program :=
  fun frame hframe => H.known frame (List.mem_cons_of_mem _ hframe)

/-- A frame that is no jump is done. -/
theorem pop (H : Orderly program ⟨state, jumping, signal, frame :: rest⟩)
    (hframe : frame.key? = none) (state' : RunState) (signal' : Except Stop Unit) :
    Orderly program ⟨state', jumping, signal', rest⟩ where
  jumping_eq := by
    have hkeys := H.jumping_eq
    simpa only [jumpKeys, List.filterMap_cons, hframe] using hkeys
  nodup := H.nodup
  known := H.tail

/-- Fresh frames are to be done. -/
theorem push (H : Orderly program ⟨state, jumping, signal, rest⟩)
    (hframes : AreFresh (assignedKeysAll program) frames) (state' : RunState)
    (signal' : Except Stop Unit) :
    Orderly program ⟨state', jumping, signal', frames ++ rest⟩ where
  jumping_eq := by
    have hkeys := H.jumping_eq
    simpa only [jumpKeys, List.filterMap_append, hframes.filterMap_key?, List.nil_append]
      using hkeys
  nodup := H.nodup
  known := List.forall_mem_append.mpr ⟨fun frame hframe => (hframes frame hframe).2, H.known⟩

theorem act (H : Orderly program ⟨state, jumping, signal, rest⟩) {action : Run (List Frame)}
    (haction : OpensFresh (assignedKeysAll program) action) (signal' : Except Stop Unit) :
    Orderly program (Machine.act ⟨state, jumping, signal', frames⟩ action rest) := by
  have hafter := haction.meets state trivial
  rw [Machine.act]
  generalize action.run state = outcome at hafter ⊢
  obtain ⟨result, after⟩ := outcome
  cases result with
  | error stop => exact H.push (areFresh_nil _) after _
  | ok pushed => exact H.push hafter after _

/-- A jump on a key that is not being jumped on begins. -/
theorem enter (H : Orderly program ⟨state, jumping, signal, .enter key value :: rest⟩)
    (hkey : key ∉ jumping) :
    Orderly program
      ⟨state, key :: jumping, signal, .jump key value (Run.watchers program key) :: rest⟩ where
  jumping_eq := congrArg (key :: ·) (H.pop rfl state signal).jumping_eq
  nodup := List.nodup_cons.mpr ⟨hkey, H.nodup⟩
  known := by
    refine List.forall_mem_cons.mpr ⟨?_, H.tail⟩
    have hself : key ∈ assignedKeysAll program :=
      H.known _ List.mem_cons_self (List.mem_singleton_self key)
    refine List.cons_subset.mpr ⟨hself, fun other hother => ?_⟩
    obtain ⟨watcher, hwatcher, hother⟩ := List.mem_flatMap.mp hother
    exact assignedKeysAll_watcher_subset hwatcher hother

/-- A jump leaves a condition behind. -/
theorem next {watcher : Node × List Node}
    (H : Orderly program ⟨state, jumping, signal, .jump key value (watcher :: watchers) :: rest⟩) :
    Orderly program ⟨state, jumping, signal, .jump key value watchers :: rest⟩ where
  jumping_eq := H.jumping_eq
  nodup := H.nodup
  known := by
    refine List.forall_mem_cons.mpr ⟨fun other hother => ?_, H.tail⟩
    refine H.known _ List.mem_cons_self ?_
    simp only [Frame.keys, List.flatMap_cons, List.mem_cons, List.mem_append] at hother ⊢
    tauto

/-- A jump ends. -/
theorem leave (H : Orderly program ⟨state, jumping, signal, .jump key value watchers :: rest⟩) :
    Orderly program ⟨state, jumping.erase key, signal, rest⟩ := by
  have hkeys : jumping = key :: rest.filterMap Frame.key? := H.jumping_eq
  have hnodup := H.nodup
  subst hkeys
  refine ⟨?_, ?_, H.tail⟩
  · rw [List.erase_cons_head]
    rfl
  · rw [List.erase_cons_head]
    exact (List.nodup_cons.mp hnodup).2

theorem advance (H : Orderly program ⟨state, jumping, .ok (), frame :: rest⟩) :
    Orderly program (Machine.advance settings options program
      ⟨state, jumping, .ok (), frame :: rest⟩ rest frame) := by
  have hknown := H.known frame List.mem_cons_self
  cases frame with
  | block nodes =>
    cases nodes with
    | nil => exact H.pop rfl _ _
    | cons node nodes =>
      have hfresh : AreFresh (assignedKeysAll program) [.statement node, .block nodes] := by
        rw [Frame.keys, assignedKeysAll, List.append_subset] at hknown
        simpa [AreFresh, Frame.key?, Frame.keys] using hknown
      exact (H.pop rfl state (.ok ())).push hfresh state (.ok ())
  | statement node =>
    rw [advance_statement]
    have hrest := H.pop rfl state (.ok ())
    have hattempt : AreFresh (assignedKeysAll program) [.attempt] := by
      simp [AreFresh, Frame.key?, Frame.keys]
    split
    · next action haction =>
      exact (hrest.push hattempt state (.ok ())).act ((opensFresh_handle haction).mono hknown) _
    · exact hrest.act (.of_action _) _
  | attempt => exact H.pop rfl _ _
  | say pieces => exact (H.pop rfl state (.ok ())).act (.of_action (emit pieces)) (.ok ())
  | rounds label delay body index left =>
    have hround : ∀ left, OpensFresh (assignedKeysAll program)
        (openRound label delay body index left) := fun left =>
      .bind fun _ => .pure (by simpa [AreFresh, Frame.key?, Frame.keys] using hknown)
    have hrest := H.pop rfl state (.ok ())
    match left with
    | some 0 => exact hrest
    | some (left + 1) =>
      rw [advance_rounds_succ]
      exact hrest.act (hround _) _
    | none =>
      rw [advance_rounds_none]
      exact hrest.act (hround _) _
  | enter key value =>
    rw [advance_enter]
    split
    · exact (H.pop rfl state (.ok ())).act (.of_action _) (.ok ())
    · next hkey => exact H.enter hkey
  | jump key value watchers =>
    cases watchers with
    | nil => exact H.leave
    | cons watcher others =>
      have hblock : AreFresh (assignedKeysAll program) [.block watcher.2] := by
        simp only [Frame.keys, List.flatMap_cons, List.cons_subset, List.append_subset] at hknown
        simpa [AreFresh, Frame.key?, Frame.keys] using hknown.2.1
      have haction : OpensFresh (assignedKeysAll program) (do
          let id ← Run.value settings watcher.1
          if id.same value then
            emit ["(assign-jump) If condition (assigned ", key, ") is true"]
            return [.block watcher.2]
          else return []) :=
        .bind fun _ => .ite (.bind fun _ => .pure hblock) (.pure (areFresh_nil _))
      exact H.next.act haction (.ok ())

theorem unwind {stop : Stop}
    (H : Orderly program ⟨state, jumping, .error stop, frame :: rest⟩) :
    Orderly program (Machine.unwind settings
      ⟨state, jumping, .error stop, frame :: rest⟩ stop rest frame) := by
  cases frame with
  | attempt =>
    cases stop with
    | fault fault => exact H.pop rfl _ _
    | endless => exact H.pop rfl _ _
  | jump key value watchers => exact H.leave
  | block | statement | say | rounds | enter => exact H.pop rfl _ _

/-- One step keeps the machine in order. -/
theorem step {machine : Machine} (H : Orderly program machine) :
    Orderly program (machine.step settings options program) := by
  obtain ⟨state, jumping, signal, frames⟩ := machine
  match frames, signal with
  | [], _ => exact H
  | frame :: rest, .ok () => exact H.advance
  | frame :: rest, .error stop => exact H.unwind

theorem iterate {machine : Machine} (H : Orderly program machine) (count : ℕ) :
    Orderly program ((Machine.step settings options program)^[count] machine) := by
  induction count generalizing machine with
  | zero => exact H
  | succ count ih => exact ih H.step

theorem start (program : List Node) (state : RunState) :
    Orderly program (Machine.start program state) where
  jumping_eq := rfl
  nodup := List.nodup_nil
  known := by simp [Machine.start, Frame.keys]

/-- The keys of the jumps in progress are keys of the program. -/
theorem jumpKeys_subset {machine : Machine} (H : Orderly program machine) :
    machine.jumpKeys ⊆ assignedKeysAll program := by
  intro key hkey
  obtain ⟨frame, hframe, hkey⟩ := List.mem_filterMap.mp hkey
  cases frame with
  | jump key' value watchers =>
    obtain rfl : key' = key := Option.some.inj hkey
    exact H.known _ hframe List.mem_cons_self
  | _ => cases hkey

/-- Jumps are nested no deeper than there are keys. -/
theorem length_jumpKeys_le {machine : Machine} (H : Orderly program machine) :
    machine.jumpKeys.length ≤ (assignedKeysAll program).dedup.length := by
  have hnodup : machine.jumpKeys.Nodup := H.jumping_eq ▸ H.nodup
  refine (List.subperm_of_subset hnodup fun key hkey => ?_).length_le
  exact List.mem_dedup.mpr (H.jumpKeys_subset hkey)

end Machine.Orderly

/-! ## Whole runs -/

/-- The machine after a number of steps of a run on a world. -/
def Machine.moment (settings : Settings) (options : BatchOptions) (program : List Node)
    (world : World) (count : ℕ) : Machine :=
  (Machine.step settings options program)^[count] (Machine.start program (.start world))

theorem Machine.moment_add (settings : Settings) (options : BatchOptions) (program : List Node)
    (world : World) (count more : ℕ) :
    moment settings options program world (count + more) =
      (Machine.step settings options program)^[more]
        (moment settings options program world count) := by
  rw [Nat.add_comm]
  exact Function.iterate_add_apply _ more count _

/-- The machine does the whole program as the run does. -/
theorem does_run (settings : Settings) (hlimit : options.foreverLimit ≠ .unspecified)
    (program : List Node) :
    Does settings options program [] [.block program] (run settings options program) := by
  have hidle : IdleApart program (assignedKeysAll program) [] := fun key hkey => by simp [hkey]
  exact does_block hlimit program fun _ hkey value => does_jump hlimit hidle hkey value

/-- A statement of a machine in order ends with the keys being jumped on that it began with. -/
theorem Machine.Orderly.reaches_statement (settings : Settings)
    (hlimit : options.foreverLimit ≠ .unspecified) {machine : Machine}
    (H : Orderly program machine) (hsignal : machine.signal = .ok ()) {node : Node}
    {rest : List Frame} (hframes : machine.frames = .statement node :: rest) :
    ∃ state signal, Reaches settings options program rest machine
      ⟨state, machine.jumping, signal, rest⟩ := by
  obtain ⟨state, jumping, signal, frames⟩ := machine
  subst hsignal hframes
  have hkeys : assignedKeys node ⊆ assignedKeysAll program := H.known _ List.mem_cons_self
  have hidle : IdleApart program ((assignedKeysAll program).filter (· ∉ jumping)) jumping :=
    fun key hkey => by simp [hkey]
  have hnode : Does settings options program jumping [.statement node] _ :=
    does_statement hlimit node fun key hkey value => does_jump hlimit hidle (hkeys hkey) value
  exact ⟨_, _, hnode.reaches state rest⟩

/-- Nothing but a loop without end stops an attempt. -/
theorem ensures_attempt (settings : Settings) (action : Run Unit) :
    Ensures (fun _ => True) (attempt settings action) (fun _ _ => True)
      fun stop _ => stop = .endless := by
  have hquiet : Quiet fun _ => True := World.stable_true.robust.toQuiet
  have haction : Maintains True (fun _ => True) action :=
    (ensures_true action).mono (fun _ h => h) (fun _ _ h => h)
      fun _ _ _ => ⟨fun _ => trivial, trivial⟩
  exact (hquiet.attempt settings haction).mono (fun _ h => h) (fun _ _ h => h) fun _ _ h => h.1

theorem ensures_statement {jump : String → Scalar → Run Unit} {node : Node}
    (hnode : (handle? settings options node).isSome) :
    Ensures (fun _ => True) (statement settings options jump node) (fun _ _ => True)
      fun stop _ => stop = .endless := by
  cases node with
  | canvas | loop | branch | assign => rw [statement]; exact ensures_attempt settings _
  | define | compute | spawn | despawn | move | wait =>
    rw [statement_of_plain rfl]
    exact ensures_attempt settings _
  | _ => cases hnode

theorem ensures_block {jump : String → Scalar → Run Unit} {nodes : List Node}
    (hnodes : ∀ node ∈ nodes, (handle? settings options node).isSome) :
    Ensures (fun _ => True) (block settings options jump nodes) (fun _ _ => True)
      fun stop _ => stop = .endless := by
  induction nodes with
  | nil => rw [block]; exact .pure fun _ _ => trivial
  | cons node rest ih =>
    obtain ⟨hnode, hrest⟩ := List.forall_mem_cons.mp hnodes
    rw [block]
    exact (ensures_statement hnode).bind fun _ => ih hrest

theorem run_ne_endless (settings : Settings) (hlimit : options.foreverLimit ≠ .unspecified)
    (program : List Node) (state : RunState) :
    ((run settings options program).run state).1 ≠ .error .endless := by
  have hrun : Maintains _ _ (run settings options program) :=
    (World.stable_true.batch settings).maintains_run hereditary_true fun _ _ => trivial
  have hafter := hrun.meets state trivial
  generalize (run settings options program).run state = outcome at hafter ⊢
  obtain ⟨result, after⟩ := outcome
  rintro rfl
  exact hlimit (hafter.1 rfl)

theorem run_eq_ok (hlimit : options.foreverLimit ≠ .unspecified)
    (hprogram : ∀ node ∈ program, (handle? settings options node).isSome) (state : RunState) :
    ((run settings options program).run state).1 = .ok () := by
  have hendless := run_ne_endless settings hlimit program state
  have hrun : Ensures _ (run settings options program) _ _ := ensures_block hprogram
  have hafter := hrun.meets state trivial
  generalize (run settings options program).run state = outcome at hafter hendless ⊢
  obtain ⟨result, after⟩ := outcome
  cases result with
  | ok a => rfl
  | error stop => exact absurd (congrArg Except.error hafter) hendless

/-- **Every run has an end, and its jumps are nested with different keys.** Let loops without end be
limited. Whatever the program, the world and the draws, the machine comes to the end that the run
has, and only a top-level node that is no statement can make it fail. At every moment the keys being
jumped on are those of the jumps in progress; these are distinct, each is bound by a statement of
the program, and so they are nested no deeper than there are such keys. And from every moment at
which a statement begins, the machine comes to one at which the statement is over, whether it failed
or not, and the keys being jumped on are the same as before. -/
theorem run_ends (settings : Settings) {options : BatchOptions}
    (hlimit : options.foreverLimit ≠ .unspecified) (program : List Node) (world : World) :
    let outcome := (run settings options program).run (.start world)
    let moment := Machine.moment settings options program world
    (∃ count, moment count = ⟨outcome.2, [], outcome.1, []⟩) ∧
    outcome.1 ≠ .error .endless ∧
    ((∀ node ∈ program, (handle? settings options node).isSome) → outcome.1 = .ok ()) ∧
    (∀ count, (moment count).jumping = (moment count).jumpKeys ∧
      (moment count).jumpKeys.Nodup ∧ (moment count).jumpKeys ⊆ assignedKeysAll program ∧
      (moment count).jumpKeys.length ≤ (assignedKeysAll program).dedup.length) ∧
    ∀ count node rest, (moment count).signal = .ok () →
      (moment count).frames = .statement node :: rest →
      ∃ more, (moment (count + more)).frames = rest ∧
        (moment (count + more)).jumping = (moment count).jumping ∧
        ∀ index < more, ∃ above, above ≠ [] ∧ (moment (count + index)).frames = above ++ rest := by
  intro outcome moment
  have horderly : ∀ count, (moment count).Orderly program := (Orderly.start program _).iterate
  have hadd : ∀ count more, moment (count + more) = _ :=
    moment_add settings options program world
  refine ⟨?_, run_ne_endless settings hlimit program _, fun hhandled => run_eq_ok hlimit hhandled _,
    fun count => ?_, fun count node rest hsignal hframes => ?_⟩
  · obtain ⟨count, hcount, -⟩ := (does_run settings hlimit program).reaches (.start world) []
    exact ⟨count, hcount⟩
  · have H := horderly count
    exact ⟨H.jumping_eq, H.jumping_eq ▸ H.nodup, H.jumpKeys_subset, H.length_jumpKeys_le⟩
  · obtain ⟨state, signal, more, hmore, habove⟩ :=
      (horderly count).reaches_statement settings hlimit hsignal hframes
    refine ⟨more, ?_, ?_, fun index hindex => ?_⟩
    · rw [hadd, hmore]
    · rw [hadd, hmore]
    · rw [hadd]
      exact habove index hindex

/-- A condition on a key whose block binds the key again, and the binding that sets it off. -/
def echoProgram : List Node :=
  [.branch (.number (.int 1)) "assigned" .absent "w" [.assign "w" (.number (.int 1))] [],
    .assign "w" (.number (.int 1))]

theorem echoProgram_ends :
    (∃ count after, Machine.moment (.batch false .absent fun _ => .int 0) {} echoProgram .empty
      count = ⟨after, [], .ok (), []⟩) ∧
    ∀ count, (Machine.moment (.batch false .absent fun _ => .int 0) {} echoProgram .empty
      count).jumpKeys.length ≤ 1 := by
  have hlimit : ({} : BatchOptions).foreverLimit ≠ .unspecified := by decide
  obtain ⟨⟨count, hend⟩, -, hok, hkeys, -⟩ :=
    run_ends (.batch false .absent fun _ => .int 0) hlimit echoProgram .empty
  rw [hok (by simp [echoProgram, handle?])] at hend
  have hone : (assignedKeysAll echoProgram).dedup.length = 1 := by
    simp [echoProgram, assignedKeysAll, assignedKeys]
  exact ⟨⟨count, _, hend⟩, fun count => hone ▸ (hkeys count).2.2.2⟩

end TileScript.Batch
