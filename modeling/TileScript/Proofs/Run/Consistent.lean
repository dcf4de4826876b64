import TileScript.Proofs.Run.Keeps

/-!
# Worlds of runs are consistent

The changes of a world keep it sound, so that every world that programs and hosts can make is
consistent: after any changes with any arguments, after every statement of a run from start to end,
and after every call of a run tick by tick.

## Main definitions

* `World.Reachable`: the worlds that changes and bindings make of the empty one.

## Main statements

* `World.consistent_of_runs`: the board and the records agree in all of them.
-/

namespace TileScript.World

/-- The worlds that can be made of the empty one. -/
inductive Reachable : World → Prop
  | empty : Reachable .empty
  | edit {world : World} (edit : Edit) (h : Reachable world) : Reachable (world.edit edit)
  | bindings {world : World} (vars assignments : Table String Scalar) (h : Reachable world) :
    Reachable { world with vars, assignments }

theorem Reachable.edits {world : World} (h : world.Reachable) (edits : List Edit) :
    (edits.foldl World.edit world).Reachable := by
  induction edits generalizing world with
  | nil => exact h
  | cons edit edits ih => exact ih (h.edit edit)

theorem stable_reachable : Stable Reachable :=
  ⟨fun _ edit h => h.edit edit, fun _ vars assignments h => h.bindings vars assignments⟩

theorem Sound.bindings {world : World} (H : world.Sound) (vars assignments : Table String Scalar) :
    ({ world with vars, assignments } : World).Sound :=
  ⟨H.size, H.keyed, H.placed, H.nodup, H.shown⟩

theorem Reachable.sound {world : World} (h : world.Reachable) : world.Sound := by
  induction h with
  | empty => exact sound_empty
  | edit edit _ ih => exact ih.edit edit
  | bindings vars assignments _ ih => exact ih.bindings vars assignments

theorem stable_sound : Stable Sound :=
  ⟨fun _ edit H => H.edit edit, fun _ vars assignments H => H.bindings vars assignments⟩

/-- Any number of calls of a host keep the world sound. -/
theorem sound_calls (settings : Settings) (program : List Node) (calls : List Session.Call) :
    (calls.foldl Session.call (Session.create settings program)).state.world.Sound := by
  have hcalls : ∀ session : Session, session.state.world.Sound →
      (calls.foldl Session.call session).state.world.Sound := by
    induction calls with
    | nil => exact fun _ H => H
    | cons call calls ih => exact fun session H => ih _ (session.keeps_call stable_sound call H)
  exact hcalls _ (Session.keeps_create settings program sound_empty)

/-- **The board and the records agree throughout.** They do so after any changes of the empty world
with any arguments, whether they succeed or fail, and so in every reachable world. Every statement
of a run from start to end, at any depth and in any jump, makes a reachable world of a reachable
one; in particular the world is consistent after every statement of a program that runs on the
empty world, and after every call of a host that drives a program tick by tick. -/
theorem consistent_of_runs :
    (∀ edits : List Edit, (edits.foldl edit .empty).Consistent) ∧
    (∀ world : World, world.Reachable → world.Consistent) ∧
    (∀ (settings : Settings) (options : BatchOptions) (program : List Node) (idle : List String)
      (node : Node) (state : RunState), state.world.Reachable →
      ((Batch.statement settings options (Batch.jump settings options program idle) node).run
        state).2.world.Reachable) ∧
    (∀ (settings : Settings) (options : BatchOptions) (program : List Node) (count : ℕ),
      ((Batch.block settings options
        (Batch.jump settings options program (Batch.assignedKeysAll program))
        (program.take count)).run (.start .empty)).2.world.Consistent) ∧
    ∀ (settings : Settings) (program : List Node) (calls : List Session.Call),
      (calls.foldl Session.call (Session.create settings program)).state.world.Consistent := by
  refine ⟨fun edits => (sound_empty.edits edits).consistent, fun _ h => h.sound.consistent, ?_, ?_,
    fun settings program calls => (sound_calls settings program calls).consistent⟩
  · intro settings options program idle node
    exact Batch.keeps_statement settings options stable_reachable
      (Batch.keeps_jump settings options stable_reachable program idle) node
  · intro settings options program count
    have hkeeps := Batch.keeps_block settings options stable_sound
      (Batch.keeps_jump settings options stable_sound program (Batch.assignedKeysAll program))
      (program.take count)
    exact (hkeeps (.start .empty) sound_empty).consistent

/-- Two objects on two tiles; the first swaps places with the second and is then asked to leave the
board, which fails. -/
def swapEdits : List Edit :=
  [.resize (.int 2) (.int 1), .spawn (.int 1) (.int 0) (.int 0) (.int 0),
    .spawn (.int 2) (.int 1) (.int 0) (.int 0),
    .move (.int 1) (.text "right") .null .null .null (.bool true),
    .move (.int 1) (.text "right") .null .null .null (.bool true)]

theorem consistent_of_swapEdits :
    (swapEdits.foldl edit .empty).Reachable ∧
      (swapEdits.foldl edit .empty).board = [[["2"], ["1"]]] ∧
      (swapEdits.foldl edit .empty).Consistent :=
  have hreachable := Reachable.empty.edits swapEdits
  ⟨hreachable, by decide +kernel, consistent_of_runs.2.1 _ hreachable⟩

end TileScript.World
