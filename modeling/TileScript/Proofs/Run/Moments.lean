import TileScript.Proofs.Run.Nesting

/-!
# Every moment of a run from start to end

A property of states that the statements of a kind maintain holds not only when a run is over: it
holds at every moment of the machine, in the middle of loops, conditions and jumps, and while a stop
is on its way. The frames of the machine hold only statements of the kind, because the blocks of
such statements do.

## Main definitions

* `Batch.Frame.Holds`, `Batch.Machine.Holds`: what the frames and the state are like.
* `Batch.Opening`: an action that maintains a property and leaves only statements of a kind to do.

## Main statements

* `Batch.Machine.Holds.step`: one step keeps this.
* `Batch.Invariant.moment`: it holds at every moment.
-/

namespace TileScript.Batch

open Run Machine

variable {settings : Settings} {options : BatchOptions} {program : List Node}
  {good : Node → Prop} {I : RunState → Prop}

/-- The statements in a frame are of a kind. -/
def Frame.Holds (good : Node → Prop) : Frame → Prop
  | .block nodes => ∀ node ∈ nodes, good node
  | .statement node => good node
  | .rounds _ _ body _ _ => ∀ node ∈ body, good node
  | .jump _ _ watchers => ∀ watcher ∈ watchers, ∀ node ∈ watcher.2, good node
  | .attempt | .say _ | .enter _ _ => True

/-- The statements that are left to do are of a kind, and the state has a property. -/
structure Machine.Holds (good : Node → Prop) (I : RunState → Prop) (machine : Machine) : Prop where
  state : I machine.state
  frames : ∀ frame ∈ machine.frames, frame.Holds good

/-- The action maintains the property, and leaves only statements of the kind to do. -/
def Opening (good : Node → Prop) (I : RunState → Prop) (action : Run (List Frame)) : Prop :=
  Ensures I action (fun frames state => (∀ frame ∈ frames, frame.Holds good) ∧ I state)
    fun _ => I

namespace Opening

theorem pure {frames : List Frame} (h : ∀ frame ∈ frames, frame.Holds good) :
    Opening good I (pure frames) := Ensures.pure fun _ hstate => ⟨h, hstate⟩

theorem bind {α : Type} {first : Run α} {action : α → Run (List Frame)} (h : Maintains True I first)
    (haction : ∀ a, Opening good I (action a)) : Opening good I (first >>= action) :=
  Ensures.bind (h.mono (fun _ h => h) (fun _ _ h => h) fun _ _ h => h.2) haction

theorem of_maintains {action : Run Unit} (h : Maintains True I action) :
    Opening good I (do action; return []) := bind h fun _ => pure (by simp)

/-- What an action maintains does not depend on what it leaves to do. -/
theorem of_bind_unit {action : Run (List Frame)}
    (h : Maintains True I (action >>= fun _ => (Pure.pure () : Run Unit)))
    (hframes : Ensures (fun _ => True) action
      (fun frames _ => ∀ frame ∈ frames, frame.Holds good) fun _ _ => True) :
    Opening good I action := by
  refine ⟨fun state hstate => ?_⟩
  have hafter := h.meets state hstate
  have hopened := hframes.meets state trivial
  rw [run_bind] at hafter
  generalize action.run state = outcome at hafter hopened ⊢
  obtain ⟨_ | _, after⟩ := outcome
  · exact hafter.2
  · exact ⟨hopened, hafter⟩

end Opening

theorem opening_loop {delay count : Scalar} {body : List Node} (hbody : ∀ node ∈ body, good node) :
    Opening good I (ofExcept (loopFrames options delay count body)) := by
  cases hframes : loopFrames options delay count body with
  | error fault => exact .throw fun _ hstate => hstate
  | ok frames =>
    refine .pure fun frame hframe => ?_
    obtain ⟨label, left, rfl⟩ | ⟨pieces, rfl⟩ := exists_of_mem_loopFrames hframes hframe
    · exact hbody
    · exact trivial

/-- What a statement does at once maintains the property, and what is left to do of it are
statements of its kind. -/
theorem opening_handle (hI : Invariant settings good I) (hgood : Hereditary good) {node : Node}
    (hnode : good node) {action : Run (List Frame)}
    (h : handle? settings options node = some action) : Opening good I action := by
  cases node with
  | canvas width height => cases h; exact .of_maintains (hI.canvas hnode).of_false
  | loop delay count body => cases h; exact opening_loop (hgood.loop hnode)
  | branch left relation right key whenTrue whenFalse =>
    cases h
    obtain ⟨htrue, hfalse⟩ := hgood.branch hnode
    refine .bind (hI.maintains_condition left relation right key) fun tested => ?_
    obtain ⟨holds, words⟩ := tested
    refine .bind (hI.maintains_emit _) fun _ => .pure ?_
    cases holds with
    | true => simpa [Frame.Holds] using htrue
    | false => simpa [Frame.Holds] using hfalse
  | assign key node =>
    cases h
    have hassign : Maintains True I (assign settings (fun _ _ => Pure.pure ()) key node) :=
      hI.assign hnode fun _ _ => .pure ()
    refine .of_bind_unit ?_ ?_
    · simpa only [assign, bind_assoc, pure_bind] using hassign
    · exact (ensures_true _).bind fun _ => (ensures_true _).bind fun _ =>
        (ensures_true _).bind fun _ => .pure fun _ _ => by simp [Frame.Holds]
  | define | compute | spawn | despawn | move | wait =>
    cases h
    exact .of_maintains (hI.plain hnode rfl).of_false
  | _ => cases h

/-! ## One step -/

namespace Machine.Holds

variable {state : RunState} {jumping : List String} {signal : Except Stop Unit}
  {frame : Frame} {frames rest : List Frame}

theorem tail (H : Holds good I ⟨state, jumping, signal, frame :: rest⟩) :
    ∀ frame ∈ rest, frame.Holds good :=
  fun frame hframe => H.frames frame (List.mem_cons_of_mem _ hframe)

theorem act {action : Run (List Frame)} (haction : Opening good I action) (hstate : I state)
    (hrest : ∀ frame ∈ rest, frame.Holds good) :
    Holds good I (Machine.act ⟨state, jumping, signal, frames⟩ action rest) := by
  have hafter := haction.meets state hstate
  rw [Machine.act]
  generalize action.run state = outcome at hafter ⊢
  obtain ⟨_ | pushed, after⟩ := outcome
  · exact ⟨hafter, hrest⟩
  · exact ⟨hafter.2, List.forall_mem_append.mpr ⟨hafter.1, hrest⟩⟩

variable (hI : Invariant settings good I) (hgood : Hereditary good)
include hI

theorem unwind {stop : Stop} (H : Holds good I ⟨state, jumping, .error stop, frame :: rest⟩) :
    Holds good I (Machine.unwind settings
      ⟨state, jumping, .error stop, frame :: rest⟩ stop rest frame) := by
  cases frame with
  | attempt =>
    cases stop with
    | fault fault =>
      have hreport : Maintains True I (report settings fault) :=
        (hI.completes_report settings fault).maintains
      exact ⟨hreport.state_run H.state, H.tail⟩
    | endless => exact ⟨H.state, H.tail⟩
  | _ => exact ⟨H.state, H.tail⟩

include hgood

theorem advance (hprogram : ∀ node ∈ program, good node)
    (H : Holds good I ⟨state, jumping, .ok (), frame :: rest⟩) :
    Holds good I (Machine.advance settings options program
      ⟨state, jumping, .ok (), frame :: rest⟩ rest frame) := by
  have hframe := H.frames frame List.mem_cons_self
  cases frame with
  | block nodes =>
    cases nodes with
    | nil => exact ⟨H.state, H.tail⟩
    | cons node nodes =>
      obtain ⟨hnode, hnodes⟩ := List.forall_mem_cons.mp hframe
      exact ⟨H.state, List.forall_mem_cons.mpr ⟨hnode, List.forall_mem_cons.mpr ⟨hnodes, H.tail⟩⟩⟩
  | statement node =>
    rw [advance_statement]
    split
    · next action haction =>
      exact act (opening_handle hI hgood hframe haction) H.state
        (List.forall_mem_cons.mpr ⟨trivial, H.tail⟩)
    · refine act (.of_maintains ?_) H.state H.tail
      exact .bind (.ofExcept _) fun _ => (hI.completes_logError settings _).maintains
  | attempt => exact ⟨H.state, H.tail⟩
  | say pieces => exact act (.of_maintains (hI.maintains_emit pieces)) H.state H.tail
  | rounds label delay body index left =>
    have hround : ∀ left, Opening good I (openRound label delay body index left) := fun left =>
      .bind (hI.maintains_emit _) fun _ => .pure (by simpa [Frame.Holds] using hframe)
    match left with
    | some 0 => exact ⟨H.state, H.tail⟩
    | some (left + 1) =>
      rw [advance_rounds_succ]
      exact act (hround _) H.state H.tail
    | none =>
      rw [advance_rounds_none]
      exact act (hround _) H.state H.tail
  | enter key value =>
    rw [advance_enter]
    split
    · exact act (.of_maintains (hI.completes_logError settings _).maintains) H.state H.tail
    · exact ⟨H.state, List.forall_mem_cons.mpr
        ⟨fun watcher hwatcher => hgood.watchers hprogram hwatcher, H.tail⟩⟩
  | jump key value watchers =>
    cases watchers with
    | nil => exact ⟨H.state, H.tail⟩
    | cons watcher others =>
      obtain ⟨hwatcher, hothers⟩ := List.forall_mem_cons.mp hframe
      refine act (.bind (hI.completes_value settings watcher.1).maintains fun id => ?_) H.state
        (List.forall_mem_cons.mpr ⟨hothers, H.tail⟩)
      split
      · exact .bind (hI.maintains_emit _) fun _ => .pure (by simpa [Frame.Holds] using hwatcher)
      · exact .pure (by simp)

/-- One step of the machine maintains what the statements maintain. -/
theorem step (hprogram : ∀ node ∈ program, good node) {machine : Machine}
    (H : machine.Holds good I) : (machine.step settings options program).Holds good I := by
  obtain ⟨state, jumping, signal, frames⟩ := machine
  match frames, signal with
  | [], _ => exact H
  | frame :: rest, .ok () => exact H.advance hI hgood hprogram
  | frame :: rest, .error stop => exact H.unwind hI

theorem iterate (hprogram : ∀ node ∈ program, good node) {machine : Machine}
    (H : machine.Holds good I) (count : ℕ) :
    ((Machine.step settings options program)^[count] machine).Holds good I := by
  induction count generalizing machine with
  | zero => exact H
  | succ count ih => exact ih (H.step hI hgood hprogram)

end Machine.Holds

/-- **What the statements maintain holds at every moment of a run.** -/
theorem Invariant.moment (hI : Invariant settings good I) (hgood : Hereditary good)
    (hprogram : ∀ node ∈ program, good node) {world : World} (hworld : I (.start world))
    (count : ℕ) : (Machine.moment settings options program world count).Holds good I :=
  Machine.Holds.iterate hI hgood hprogram
    ⟨hworld, by simpa [Machine.start, Frame.Holds] using hprogram⟩ count

end TileScript.Batch
