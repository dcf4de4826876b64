import TileScript.Proofs.Run.SingleLoop

/-!
# How many ticks a program takes

Tick by tick, every process runs a round in each tick until it has run as many as it may. Nothing
that a block does can hold up a process or stop a tick: the faults of statements are logged inside
the block, and the values that a tick writes to its trace can be written, as they come from a
program text. So the rounds of a process count the ticks up to the limit of the process, and all is
done in the first tick that finds every process at its limit.

A loop without end has a limit of sorts. The trace of a tick holds the number of the round, and a
number of more than 4300 digits cannot be written. The tick that comes to it fails.

## Main definitions

* `Process.lastRound`: the number of rounds that a process comes to.
* `Process.afterTicks`: a process as it is after some ticks.
* `Process.longest`: the largest number of rounds among some processes.

## Main statements

* `Process.exists_run_advanceAll`: the rounds of all processes in one tick.
* `Session.processes_afterTicks`: the rounds of all processes after any number of ticks.
* `Session.tick_accounting`: rounds, ends and driven runs.
-/

namespace TileScript

open Run

namespace Process

/-! ## The limits of processes -/

/-- The number of rounds that a process comes to: its count, or one if there is none. A process
without end comes to the last number that can be written. -/
def lastRound (process : Process) : ℕ :=
  match process.count with
  | .int total => total.toNat
  | .null => 1
  | _ => Scalar.writtenBound - 1

/-- The process after some ticks, in each of which it had a round until it came to its last. -/
def afterTicks (ticks : ℕ) (process : Process) : Process :=
  { process with rounds := min ticks process.lastRound }

/-- The largest number of rounds that one of the processes comes to. -/
def longest (processes : List Process) : ℕ := (processes.map lastRound).foldr max 0

theorem longest_le_iff {processes : List Process} {ticks : ℕ} :
    longest processes ≤ ticks ↔ ∀ process ∈ processes, process.lastRound ≤ ticks := by
  induction processes with
  | nil => simp [longest]
  | cons process rest ih =>
    rw [List.forall_mem_cons, ← ih]
    exact max_le_iff

/-- The count of a process is one of the grammar. -/
def HasCount (process : Process) : Prop := Node.isCount process.count = true

variable {process : Process} {ticks : ℕ}

theorem lastRound_forever (h : process.count = "forever") :
    process.lastRound = Scalar.writtenBound - 1 := by
  rw [lastRound, h]

theorem afterTicks_succ (h : process.lastRound ≤ ticks) :
    process.afterTicks (ticks + 1) = process.afterTicks ticks := by
  rw [afterTicks, afterTicks, Nat.min_eq_right h, Nat.min_eq_right (by omega)]

namespace HasCount

/-- The three kinds of counts. -/
theorem cases (h : process.HasCount) :
    (process.count = "forever" ∧ process.lastRound = Scalar.writtenBound - 1) ∨
    (process.count = .null ∧ process.lastRound = 1) ∨
    ∃ total : ℕ, process.count = .int total ∧ process.lastRound = total ∧
      total < Scalar.writtenBound := by
  obtain ⟨count, body, rounds⟩ := process
  rcases Node.cases_of_isCount h with rfl | rfl | ⟨total, htotal, rfl⟩
  · exact .inr (.inl ⟨rfl, rfl⟩)
  · exact .inl ⟨rfl, rfl⟩
  · exact .inr (.inr ⟨total, rfl, rfl, htotal⟩)

theorem lastRound_lt (h : process.HasCount) : process.lastRound < Scalar.writtenBound := by
  have hone := Scalar.one_lt_writtenBound
  rcases h.cases with ⟨-, hlast⟩ | ⟨-, hlast⟩ | ⟨total, -, hlast, htotal⟩ <;> omega

/-- The limit of a process, as its trace shows it. -/
theorem written_limit (h : process.HasCount) : (process.limit?.getD "∞").Written := by
  have hone := Scalar.one_lt_writtenBound
  rcases h.cases with ⟨hcount, -⟩ | ⟨hcount, -⟩ | ⟨total, hcount, -, htotal⟩
  · simp [limit?, hcount, Scalar.same]
  · simp [limit?, hcount, Scalar.same, Scalar.number?, hone]
  · simpa [limit?, hcount, Scalar.same_int_text] using htotal

/-- A process that is not without end is finished when it comes to its last round. -/
theorem isFinished_eq (h : process.HasCount) :
    process.isFinished =
      .ok (decide (process.count ≠ "forever" ∧ process.lastRound ≤ process.rounds)) := by
  obtain ⟨count, body, rounds⟩ := process
  rcases h.cases with ⟨rfl, -⟩ | ⟨rfl, hlast⟩ | ⟨total, rfl, hlast, -⟩
  · rw [isFinished_forever]
    simp
  · exact (isFinished_int body rounds 1).trans (by simp [hlast])
  · rw [isFinished_int, hlast]
    simp

/-! ## Rounds of one process -/

variable {settings : Settings} {program : List Node}

/-- At its last round a process that is not without end is finished. -/
theorem isFinished_of_le (h : process.HasCount) (hforever : process.count ≠ "forever")
    (hticks : process.lastRound ≤ ticks) : (process.afterTicks ticks).isFinished = .ok true := by
  have hcount : (process.afterTicks ticks).HasCount := h
  have hrounds : (process.afterTicks ticks).rounds = process.lastRound := Nat.min_eq_right hticks
  rw [hcount.isFinished_eq, hrounds]
  exact congrArg Except.ok (decide_eq_true ⟨hforever, le_rfl⟩)

/-- Before its last round a process has one more, whatever its block does. -/
theorem exists_round (h : process.HasCount) (hticks : ticks < process.lastRound)
    (state : RunState) :
    ∃ after, ((process.afterTicks ticks).advance settings program).run state =
      (.ok (some (process.afterTicks (ticks + 1))), after) := by
  have hcount : (process.afterTicks ticks).HasCount := h
  have hrounds : (process.afterTicks ticks).rounds = ticks := Nat.min_eq_left (by omega)
  have hnext : process.afterTicks (ticks + 1) = { process with rounds := ticks + 1 } := by
    rw [afterTicks, Nat.min_eq_left hticks]
  have hrunning : (process.afterTicks ticks).isFinished = .ok false := by
    rw [hcount.isFinished_eq, hrounds]
    exact congrArg Except.ok (decide_eq_false fun hlast => Nat.not_le.mpr hticks hlast.2)
  have hnumber : (Scalar.int ((process.afterTicks ticks).rounds + 1)).Written := by
    have hlast := h.lastRound_lt
    rw [hrounds, Scalar.written_int_iff]
    omega
  have hwork : Completes (fun _ => True) ((process.afterTicks ticks).work settings program) :=
    completes_work hnumber hcount.written_limit
  obtain ⟨_, after, hrun, -⟩ := hwork.exists_run state trivial
  refine ⟨after, ?_⟩
  rw [advance_of_unfinished hrunning, run_bind, hrun, hnext, hrounds]
  rfl

/-- What a process does in a tick in which the number of a round can be written. -/
theorem exists_advance (h : process.HasCount) (hticks : ticks + 1 < Scalar.writtenBound)
    (state : RunState) :
    ∃ moved after, ((process.afterTicks ticks).advance settings program).run state =
        (.ok moved, after) ∧
      moved.getD (process.afterTicks ticks) = process.afterTicks (ticks + 1) ∧
      moved.isSome = decide (ticks < process.lastRound) := by
  by_cases hlast : ticks < process.lastRound
  · obtain ⟨after, hround⟩ := h.exists_round hlast state
    exact ⟨_, after, hround, rfl, by simp [hlast]⟩
  · have hforever : process.count ≠ "forever" := by
      intro hforever
      rw [lastRound_forever hforever] at hlast
      omega
    refine ⟨none, state, ?_, (afterTicks_succ (by omega)).symm, by simp [hlast]⟩
    rw [advance_of_finished (h.isFinished_of_le hforever (by omega))]
    rfl

/-- At its last round a process rests. -/
theorem rests (h : process.HasCount) (hticks : process.lastRound ≤ ticks) :
    (process.afterTicks ticks).Rests settings program := by
  by_cases hforever : process.count = "forever"
  · -- The number of the next round cannot be written.
    have hcount : (process.afterTicks ticks).HasCount := h
    have hrounds : (process.afterTicks ticks).rounds = process.lastRound := Nat.min_eq_right hticks
    apply rests_of_not_written
    · rw [hcount.isFinished_eq]
      exact congrArg Except.ok (decide_eq_false fun hlast => hlast.1 hforever)
    · rw [hrounds, lastRound_forever hforever, Scalar.written_int_iff]
      omega
  · exact rests_of_finished (h.isFinished_of_le hforever hticks)

end HasCount

/-! ## Rounds of all processes -/

variable {settings : Settings} {program : List Node} {processes : List Process}

/-- The counts of a program are those of the grammar. -/
theorem hasCount_ofProgram (hprogram : ∀ node ∈ program, node.isStatement = true) :
    ∀ process ∈ ofProgram program, process.HasCount := by
  intro process hprocess
  obtain ⟨delay, count, body, hnode, rfl⟩ := exists_of_mem_ofProgram hprocess
  have hloop := hprogram _ hnode
  simp only [Node.isStatement, Bool.and_eq_true] at hloop
  exact hloop.1.2

theorem map_afterTicks_zero (program : List Node) :
    (ofProgram program).map (afterTicks 0) = ofProgram program := by
  refine (List.map_congr_left fun process hprocess => ?_).trans (List.map_id _)
  obtain ⟨delay, count, body, -, rfl⟩ := exists_of_mem_ofProgram hprocess
  simp [afterTicks]

/-- A tick in which the number of a round can be written gives a round to every process that is not
at its last. -/
theorem exists_run_advanceAll (settings : Settings) (program : List Node)
    (h : ∀ process ∈ processes, process.HasCount)
    (hticks : ticks + 1 < Scalar.writtenBound) (state : RunState) :
    ∃ after, (advanceAll settings program (processes.map (afterTicks ticks))).run state =
      ((processes.map (afterTicks (ticks + 1)), .ok (decide (ticks < longest processes))),
        after) := by
  induction processes generalizing state with
  | nil => exact ⟨state, rfl⟩
  | cons process rest ih =>
    obtain ⟨hprocess, hrest⟩ := List.forall_mem_cons.mp h
    obtain ⟨moved, worked, hadvance, hmoved, hsome⟩ := hprocess.exists_advance hticks state
    obtain ⟨after, hall⟩ := ih hrest worked
    have hlongest : decide (ticks < longest (process :: rest)) =
        (moved.isSome || decide (ticks < longest rest)) := by
      rw [hsome, ← Bool.decide_or]
      exact decide_eq_decide.mpr lt_max_iff
    refine ⟨after, ?_⟩
    rw [List.map_cons, run_advanceAll_cons, hadvance]
    dsimp only
    rw [hall, hmoved, hlongest]
    rfl

/-- A tick leaves processes that rest alone, and none of them counts as one that had a round. -/
theorem run_advanceAll_of_rests (h : ∀ process ∈ processes, process.Rests settings program)
    (state : RunState) :
    ∃ active, (advanceAll settings program processes).run state =
      ((processes, active), state) ∧ active ≠ .ok true := by
  induction processes with
  | nil => exact ⟨.ok false, rfl, nofun⟩
  | cons process rest ih =>
    obtain ⟨hprocess, hrest⟩ := List.forall_mem_cons.mp h
    rw [run_advanceAll_cons]
    rcases hprocess.run_eq state with hadvance | ⟨stop, hadvance⟩
    · obtain ⟨active, hall, hactive⟩ := ih hrest
      refine ⟨active, ?_, hactive⟩
      rw [hadvance]
      dsimp only
      rw [hall]
      cases active <;> rfl
    · refine ⟨.error stop, ?_, nofun⟩
      rw [hadvance]

end Process

namespace Session

variable {settings : Settings} {program : List Node} {session : Session} {processes : List Process}

theorem processes_fail (session : Session) (stop : Stop) :
    (session.fail stop).1.processes = session.processes := by
  cases stop <;> rfl

theorem done_fail (session : Session) (stop : Stop) : (session.fail stop).2 = true := by
  cases stop <;> rfl

/-- What a tick does with the processes, and what it says of being done. -/
theorem processes_closeTick (h : ∀ process ∈ processes, process.HasCount) {ticks : ℕ}
    (hprocesses : session.processes = processes.map (Process.afterTicks ticks))
    (state : RunState) :
    (session.closeTick state).1.processes = processes.map (Process.afterTicks (ticks + 1)) ∧
    (session.closeTick state).2 = decide (Process.longest processes ≤ ticks) := by
  rw [closeTick, hprocesses]
  by_cases hticks : ticks + 1 < Scalar.writtenBound
  · obtain ⟨after, hall⟩ :=
      Process.exists_run_advanceAll session.settings session.program h hticks state
    rw [hall]
    exact ⟨rfl, by simp [← decide_not]⟩
  · have hlast : ∀ process ∈ processes, process.lastRound ≤ ticks := by
      intro process hprocess
      have hbound := (h process hprocess).lastRound_lt
      omega
    have hrests : ∀ process ∈ processes.map (Process.afterTicks ticks),
        process.Rests session.settings session.program := by
      intro process hmem
      obtain ⟨process, hprocess, rfl⟩ := List.mem_map.mp hmem
      exact (h process hprocess).rests (hlast process hprocess)
    have hsame : processes.map (Process.afterTicks ticks) =
        processes.map (Process.afterTicks (ticks + 1)) :=
      List.map_congr_left fun process hprocess =>
        (Process.afterTicks_succ (hlast process hprocess)).symm
    obtain ⟨active, hall, hactive⟩ := Process.run_advanceAll_of_rests hrests state
    rw [hall, hsame, decide_eq_true (Process.longest_le_iff.mpr hlast)]
    cases active with
    | error stop => exact ⟨processes_fail _ stop, done_fail _ stop⟩
    | ok active =>
      cases active with
      | false => exact ⟨rfl, rfl⟩
      | true => exact absurd rfl hactive

/-! ## Whole runs -/

theorem processes_setUp (settings : Settings) (program : List Node) :
    (create settings program).setUp.processes =
      (Process.ofProgram program).map (Process.afterTicks 0) := by
  rw [Process.map_afterTicks_zero, create, act_eq, setUp_eq rfl]

section

variable {inputs : ℕ → Table String Scalar} (settings : Settings)
  (hprogram : ∀ node ∈ program, node.isStatement = true)
  (hinputs : ∀ tick, ∀ entry ∈ (inputs tick).entries, entry.2.Written)
include hprogram hinputs

theorem step_afterTicks {tick : ℕ}
    (h : ((create settings program).afterTicks inputs tick).processes =
      (Process.ofProgram program).map (Process.afterTicks tick)) :
    (((create settings program).afterTicks inputs tick).step (inputs tick)).1.processes =
      (Process.ofProgram program).map (Process.afterTicks (tick + 1)) ∧
    (((create settings program).afterTicks inputs tick).step (inputs tick)).2 =
      decide (Process.longest (Process.ofProgram program) ≤ tick) := by
  obtain ⟨-, received, served, -, -, hstep⟩ :=
    (ready_afterTicks settings hprogram hinputs tick).step
      (legible_valuesAt settings hprogram hinputs tick) hprogram (hinputs tick)
  rw [hstep]
  exact processes_closeTick (Process.hasCount_ofProgram hprogram) h served

/-- After any number of ticks every process has had its rounds. -/
theorem processes_afterTicks (tick : ℕ) :
    ((create settings program).afterTicks inputs tick).processes =
      (Process.ofProgram program).map (Process.afterTicks tick) := by
  induction tick with
  | zero => exact processes_setUp settings program
  | succ tick ih => exact (step_afterTicks settings hprogram hinputs ih).1

/-- All is done in a tick if no process comes to more rounds than there were ticks before. -/
theorem done_step (tick : ℕ) :
    (((create settings program).afterTicks inputs tick).step (inputs tick)).2 =
      decide (Process.longest (Process.ofProgram program) ≤ tick) :=
  (step_afterTicks settings hprogram hinputs
    (processes_afterTicks settings hprogram hinputs tick)).2

end

/-- A driven run goes on until all is done or no ticks are left. -/
theorem driveFrom_eq {inputs : ℕ → Table String Scalar} {keysAt : ℤ → Table String Scalar}
    (hkeys : ∀ tick : ℕ, keysAt tick = inputs tick) {last : ℕ}
    (hdone : ∀ tick, ((session.afterTicks inputs tick).step (inputs tick)).2 =
      decide (last ≤ tick)) {tick left : ℕ} (htick : tick ≤ last) (last? : Option Bool)
    (hlast : last? = some false ∨ 0 < left) :
    driveFrom keysAt (session.afterTicks inputs tick) tick last? left =
      (session.afterTicks inputs (min (tick + left) (last + 1)),
        some (decide (last < tick + left)), min (tick + left) (last + 1)) := by
  induction left generalizing tick last? with
  | zero =>
    obtain rfl := hlast.resolve_right (Nat.lt_irrefl 0)
    rw [driveFrom, Nat.add_zero, Nat.min_eq_left (by omega), decide_eq_false (by omega)]
  | succ left ih =>
    rw [driveFrom, hkeys]
    dsimp only
    rw [hdone tick]
    by_cases hend : last ≤ tick
    · obtain rfl := Nat.le_antisymm htick hend
      rw [if_pos (decide_eq_true hend), Nat.min_eq_right (by omega), decide_eq_true (by omega)]
      rfl
    · rw [if_neg (by simpa using hend), ← afterTicks, ih (by omega) _ (.inl rfl),
        Nat.add_right_comm tick 1 left, Nat.add_assoc]

/-- **Rounds count ticks.** Let a program come from a text, and let a host supply values of keys
that can be written. A loop with a count has this as its last round, a loop without a count has one
round, and a loop without end goes on while the number of a round can be written. Whatever the
blocks do, after any number of ticks every process has run a round for each tick up to its last
round. A tick says that all is done if and only if every process was at its last round before it,
and so do all ticks after it. A driven run of at least one tick therefore has one tick more than the
longest process has rounds, if it is given that many, and only then ends with all done; with a loop
without end it has all the ticks it is given. -/
theorem tick_accounting {depth : ℕ} {source : String} {program : List Node}
    (h : parseSource depth source = .ok program) (settings : Settings)
    {inputs : ℕ → Table String Scalar}
    (hinputs : ∀ tick, ∀ entry ∈ (inputs tick).entries, entry.2.Written) :
    let session := create settings program
    let processes := Process.ofProgram program
    let isDone tick := ((session.afterTicks inputs tick).step (inputs tick)).2
    (∀ process ∈ processes,
      (process.count = "forever" ∧ process.lastRound = Scalar.writtenBound - 1) ∨
      (process.count = .null ∧ process.lastRound = 1) ∨
      ∃ total : ℕ, process.count = .int total ∧ process.lastRound = total) ∧
    (∀ tick, (session.afterTicks inputs tick).processes =
      processes.map fun process => { process with rounds := min tick process.lastRound }) ∧
    (∀ tick, isDone tick = true ↔ ∀ process ∈ processes, process.lastRound ≤ tick) ∧
    (∀ tick later, tick ≤ later → isDone tick = true → isDone later = true) ∧
    ∀ keysAt : ℤ → Table String Scalar, (∀ tick : ℕ, keysAt tick = inputs tick) →
      ∀ ticks > 0,
        (session.drive keysAt ticks).2 = (decide (Process.longest processes < ticks),
          min ticks (Process.longest processes + 1)) ∧
        ((∃ process ∈ processes, process.count = "forever") → ticks < Scalar.writtenBound →
          (session.drive keysAt ticks).2 = (false, ticks)) := by
  intro session processes isDone
  have hprogram : ∀ node ∈ program, node.isStatement = true :=
    List.all_eq_true.mp (settles_of_parseSource h).1
  have hcounts : ∀ process ∈ processes, process.HasCount := Process.hasCount_ofProgram hprogram
  have hdone : ∀ tick, isDone tick = decide (Process.longest processes ≤ tick) :=
    done_step settings hprogram hinputs
  refine ⟨?_, processes_afterTicks settings hprogram hinputs, ?_, ?_, ?_⟩
  · intro process hprocess
    rcases (hcounts process hprocess).cases with hcount | hcount | ⟨total, hcount, hlast, -⟩
    · exact .inl hcount
    · exact .inr (.inl hcount)
    · exact .inr (.inr ⟨total, hcount, hlast⟩)
  · intro tick
    rw [hdone, decide_eq_true_iff, Process.longest_le_iff]
  · intro tick later hle
    rw [hdone, hdone, decide_eq_true_iff, decide_eq_true_iff]
    exact fun hlongest => hlongest.trans hle
  · intro keysAt hkeys ticks hpos
    have hdrive : (session.drive keysAt ticks).2 = (decide (Process.longest processes < ticks),
        min ticks (Process.longest processes + 1)) := by
      have hfrom := driveFrom_eq hkeys hdone (Nat.zero_le _) none (.inr hpos)
      rw [Nat.zero_add] at hfrom
      rw [drive, ← afterTicks.eq_1 session inputs, hfrom]
      rfl
    refine ⟨hdrive, ?_⟩
    rintro ⟨process, hprocess, hforever⟩ hticks
    have hlast := Process.lastRound_forever hforever
    have hlongest : process.lastRound ≤ Process.longest processes :=
      Process.longest_le_iff.mp le_rfl process hprocess
    rw [hdrive, decide_eq_false (by omega), Nat.min_eq_left (by omega)]

/-- A program with two loops, one with a count and one without, whose statements fail. -/
def tallySource : String :=
  "canvas 2 1\nspawn id=1 x=0 y=0\nassign w to id=1\nif id=1 is assigned w\n..true\n" ++
    ". despawn id=1\nrepeat 100 3\n. move id=1 right\nrepeat 50\n. despawn id=7\n"

/-- The program of `tallySource`. -/
def tallyProgram : List Node :=
  [.canvas (.int 2) (.int 1),
    .spawn (.number (.int 1)) (.number (.int 0)) (.number (.int 0)) (.number (.int 0)),
    .assign "w" (.number (.int 1)),
    .branch (.number (.int 1)) "assigned" .absent "w" [.despawn (.scalar (.int 1))] [],
    .loop (.int 100) (.int 3)
      [.move (.number (.int 1)) .absent .absent "right" .absent (.bool false)],
    .loop (.int 50) .null [.despawn (.scalar (.int 7))]]

theorem parseSource_tallySource : parseSource nestingLimit tallySource = .ok tallyProgram :=
  parseSource_of_sameAll (by decide +kernel) (by decide +kernel)

/-- The two loops have three rounds and one, and the fourth tick finds them at their last. A loop
without end takes all the ticks there are. -/
theorem tick_accounting_tally :
    let settings := Settings.stepwise false .recording fun _ => .int 0
    let keysAt : ℤ → Table String Scalar := fun tick => pressInputs tick.toNat
    ((create settings tallyProgram).drive keysAt 9).2 = (true, 4) ∧
    ((create settings tallyProgram).drive keysAt 3).2 = (false, 3) ∧
    ((create settings (paceProgram "forever")).drive keysAt 9).2 = (false, 9) := by
  intro settings keysAt
  have hkeys : ∀ tick : ℕ, keysAt tick = pressInputs tick := fun _ => rfl
  obtain ⟨-, -, -, -, htally⟩ :=
    tick_accounting parseSource_tallySource settings written_pressInputs
  obtain ⟨-, -, -, -, hpace⟩ :=
    tick_accounting parseSource_paceSource.2 settings written_pressInputs
  have hlongest : Process.longest (Process.ofProgram tallyProgram) = 3 := by decide
  rw [hlongest] at htally
  have hticks : 9 < Scalar.writtenBound := by decide +kernel
  exact ⟨(htally keysAt hkeys 9 (by decide)).1, (htally keysAt hkeys 3 (by decide)).1,
    (hpace keysAt hkeys 9 (by decide)).2 ⟨_, List.mem_singleton_self _, rfl⟩ hticks⟩

end Session

end TileScript
