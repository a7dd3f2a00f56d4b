import Mathlib.Data.Finset.Max
import OsLabs.Uthread.RoundRobin

/-!
# Start routines that return

The context of a user thread has no `uc_link`, so the return of a start routine
ends the process and with it all other threads.  The process survives as long
as the main thread is the first to be through with its calls of `schedule`:
`finishing_iff` counts the turns that are left to each thread.
-/

set_option autoImplicit false

namespace OsLabs.Uthread

open OsLabs.Rotation OsLabs.Transition

variable {Ctx Routine Arg Event Input : Type} {program : Program Ctx Routine Arg Event Input}

/-- From this context on: exactly so many calls of `schedule`, then the return,
whatever the inputs are, and no `uthread_create`. -/
inductive Calls (program : Program Ctx Routine Arg Event Input) : Ctx → Nat → Prop where
  | ret {ctx : Ctx} (op : program.op ctx = .ret) : Calls program ctx 0
  | act {ctx : Ctx} {event : Event} {next : Input → Ctx} {count : Nat}
      (op : program.op ctx = .act event next) (later : ∀ input, Calls program (next input) count) :
      Calls program ctx count
  | schedule {ctx next : Ctx} {count : Nat} (op : program.op ctx = .schedule next)
      (later : Calls program next count) : Calls program ctx (count + 1)

/-- What each thread of the table has still to call. -/
def RunsOut (program : Program Ctx Routine Arg Event Input)
    (s : State Ctx Routine Arg Event Input) (calls : Nat → Nat) : Prop :=
  ∀ index < s.threadCount, ∃ ctx, s.contextOf program index = some ctx ∧
    Calls program ctx (calls index)

/-- How many calls of `schedule`, by whomever, until it is this thread's turn. -/
def turnsUntil (threadCount curThread index : Nat) : Nat :=
  if curThread ≤ index then index - curThread else index + threadCount - curThread

/-- How many calls of `schedule` until this thread returns. -/
def State.turnsLeft (s : State Ctx Routine Arg Event Input) (calls : Nat → Nat) (index : Nat) :
    Nat :=
  turnsUntil s.threadCount s.curThread index + s.threadCount * calls index

/-- A start routine is about to return. -/
def RoutineReturns (program : Program Ctx Routine Arg Event Input)
    (s : State Ctx Routine Arg Event Input) : Prop :=
  s.exited = false ∧ s.curThread ≠ 0 ∧ program.op s.running = .ret

/-- The process after a thread has finished. -/
structure Outlived (program : Program Ctx Routine Arg Event Input) (mainThread : Addr) (main : Ctx)
    (s next : State Ctx Routine Arg Event Input) : Prop where
  running : next.exited = false
  neverResumed : ∀ answers, (uthreads program mainThread main).Always
    (fun later => later.curThread ≠ s.curThread) next answers
  others : ∀ index < s.threadCount, index ≠ s.curThread → ∃ answers final,
    (uthreads program mainThread main).run next answers = some final ∧ final.exited = false ∧
      final.curThread = index ∧ program.op final.running = .ret

/-- The return of a start routine does not end the others. -/
def Survives (program : Program Ctx Routine Arg Event Input) (mainThread : Addr) (main : Ctx)
    (s : State Ctx Routine Arg Event Input) : Prop :=
  RoutineReturns program s → ∀ answer next, step program s answer = some next →
    Outlived program mainThread main s next

theorem survives_iff [Inhabited Input] (mainThread : Addr) (main : Ctx)
    (s : State Ctx Routine Arg Event Input) :
    Survives program mainThread main s ↔ ¬ RoutineReturns program s := by
  constructor
  · rintro survives ⟨running, notMain, op⟩
    have stepped : step program s ⟨default, none, false⟩ = some { s with exited := true } := by
      simp [step, running, op]
    have outlived := (survives ⟨running, notMain, op⟩ _ _ stepped).running
    cases outlived
  · intro never returns
    exact absurd returns never

/-! ## Turns -/

theorem turnsUntil_current (threadCount curThread : Nat) :
    turnsUntil threadCount curThread curThread = 0 := by
  simp [turnsUntil]

theorem turnsUntil_eq_zero {threadCount curThread index : Nat} (current : curThread < threadCount)
    (here : turnsUntil threadCount curThread index = 0) : index = curThread := by
  unfold turnsUntil at here
  split at here <;> omega

/-- A call of `schedule` brings every other thread one turn nearer. -/
theorem turnsUntil_next {threadCount curThread index : Nat} (current : curThread < threadCount)
    (registered : index < threadCount) :
    turnsUntil threadCount ((curThread + 1) % threadCount) index + 1 =
      if index = curThread then threadCount else turnsUntil threadCount curThread index := by
  have wraps : (curThread + 1) % threadCount =
      if curThread + 1 = threadCount then 0 else curThread + 1 := by
    split
    · rename_i last
      rw [last, Nat.mod_self]
    · exact Nat.mod_eq_of_lt (by omega)
  rw [wraps]
  unfold turnsUntil
  split <;> split <;> split <;> first | omega | (split <;> omega)

/-! ## Runs in which nothing more is created -/

variable [DecidableEq Event]

/-- Between two steps: `RunsOut`, in terms of what each thread has done. -/
structure Scheduled (program : Program Ctx Routine Arg Event Input)
    (s : State Ctx Routine Arg Event Input) (calls : Nat → Nat) : Prop where
  ring : Ring program s
  running : s.exited = false
  own : ∀ index < s.threadCount, ∃ ctx,
    program.alone (s.started index) (s.history index) = some ctx ∧ Calls program ctx (calls index)

theorem scheduled_of_runsOut {s : State Ctx Routine Arg Event Input} {calls : Nat → Nat}
    (ring : Ring program s) (running : s.exited = false) (runsOut : RunsOut program s calls) :
    Scheduled program s calls := by
  refine ⟨ring, running, ?_⟩
  intro index registered
  obtain ⟨ctx, isContext, left⟩ := runsOut index registered
  obtain ⟨own, isOwn, alone⟩ := ring.roundRobin.own running index registered
  rw [isContext, Option.some.injEq] at isOwn
  rw [← isOwn] at alone
  exact ⟨ctx, alone, left⟩

section Steps

variable {s : State Ctx Routine Arg Event Input} {calls : Nat → Nat}

theorem Scheduled.current (scheduled : Scheduled program s calls) :
    Calls program s.running (calls s.curThread) := by
  obtain ⟨ctx, alone, left⟩ := scheduled.own s.curThread scheduled.ring.current
  have live := scheduled.ring.live scheduled.running
  rw [live.running, Option.some.injEq] at alone
  rw [alone]
  exact left

/-- The running thread goes on by itself. -/
theorem Scheduled.acts (scheduled : Scheduled program s calls) {event : Event} {next : Input → Ctx}
    (op : program.op s.running = .act event next)
    (later : ∀ input, Calls program (next input) (calls s.curThread)) (answer : Answer Input) :
    ∃ after, step program s answer = some after ∧ Scheduled program after calls ∧
      after.threadCount = s.threadCount ∧ after.curThread = s.curThread ∧
      after.running = next answer.input := by
  have running := scheduled.running
  have stepped : step program s answer =
      some { s.record (.acted event answer.input) with running := next answer.input } := by
    simp [step, running, op]
  have live := scheduled.ring.live running
  have follows : (program.op s.running).follow (.acted event answer.input) =
      some (next answer.input) := by
    rw [op]
    simp [Op.follow]
  refine ⟨_, stepped, ⟨ring_step scheduled.ring stepped, running, ?_⟩, rfl, rfl, rfl⟩
  intro index registered
  by_cases isCurrent : index = s.curThread
  · refine ⟨next answer.input, ?_, ?_⟩
    · rw [isCurrent]
      simpa [State.record] using alone_snoc live.running follows
    · rw [isCurrent]
      exact later answer.input
  · obtain ⟨ctx, alone, left⟩ := scheduled.own index registered
    refine ⟨ctx, ?_, left⟩
    show program.alone (s.started index) ((s.record _).history index) = some ctx
    rw [record_history_of_ne _ isCurrent]
    exact alone

omit [DecidableEq Event] in
theorem schedule_frame {next : State Ctx Routine Arg Event Input} {after : Ctx} {err : Bool}
    (scheduled : s.schedule program after err = some next) :
    next.threadCount = s.threadCount ∧ next.exited = (s.exited || err) := by
  simp only [State.schedule] at scheduled
  obtain ⟨current, _, scheduled⟩ := Option.bind_eq_some_iff.mp scheduled
  obtain ⟨slot, _, scheduled⟩ := Option.bind_eq_some_iff.mp scheduled
  cases err with
  | true =>
      cases scheduled
      exact ⟨rfl, (Bool.or_true _).symm⟩
  | false =>
      obtain ⟨thr, _, scheduled⟩ := Option.bind_eq_some_iff.mp scheduled
      obtain ⟨nextThr, _, scheduled⟩ := Option.bind_eq_some_iff.mp scheduled
      obtain ⟨running, _, scheduled⟩ := Option.bind_eq_some_iff.mp scheduled
      cases scheduled
      exact ⟨rfl, (Bool.or_false _).symm⟩

/-- A call of `schedule` takes one turn from every thread. -/
theorem Scheduled.schedules (scheduled : Scheduled program s calls) {after : Ctx} {count : Nat}
    (op : program.op s.running = .schedule after) (left : calls s.curThread = count + 1)
    (later : Calls program after count) (answer : Answer Input) (noError : answer.err = false) :
    ∃ next calls', step program s answer = some next ∧ Scheduled program next calls' ∧
      next.threadCount = s.threadCount ∧
      ∀ index < s.threadCount, next.turnsLeft calls' index + 1 = s.turnsLeft calls index := by
  have running := scheduled.running
  obtain ⟨next, isNext, ring, curThread, started, history, _, alone⟩ :=
    scheduled.ring.schedule running op
  have stepped : step program s answer = some next := by
    simp only [step, running, op, noError, isNext, Bool.false_eq_true, if_false]
  obtain ⟨threadCount, exited⟩ := schedule_frame isNext
  refine ⟨next, Function.update calls s.curThread count, stepped, ⟨ring, ?_, ?_⟩, threadCount, ?_⟩
  · rw [exited, running]
    rfl
  · intro index registered
    rw [threadCount] at registered
    rw [started, history]
    by_cases isCurrent : index = s.curThread
    · have live := scheduled.ring.live running
      have follows : (program.op s.running).follow .scheduled = some after := by
        rw [op]
        rfl
      rw [isCurrent, Function.update_self, Function.update_self]
      exact ⟨after, alone_snoc live.running follows, later⟩
    · rw [Function.update_of_ne isCurrent, Function.update_of_ne isCurrent]
      exact scheduled.own index registered
  · intro index registered
    have turns := turnsUntil_next scheduled.ring.current registered
    unfold State.turnsLeft
    rw [threadCount, curThread]
    by_cases isCurrent : index = s.curThread
    · rw [if_pos isCurrent] at turns
      rw [isCurrent, Function.update_self, left, turnsUntil_current, Nat.mul_succ]
      rw [isCurrent] at turns
      omega
    · rw [if_neg isCurrent] at turns
      rw [Function.update_of_ne isCurrent]
      omega

end Steps

/-! ## Which thread returns first -/

section Runs

variable [Inhabited Input] (mainThread : Addr) (main : Ctx)

/-- The running thread reaches its next call of `schedule`. -/
theorem reaches_schedule {ctx : Ctx} {count : Nat} (left : Calls program ctx count)
    (s : State Ctx Routine Arg Event Input) (calls : Nat → Nat)
    (scheduled : Scheduled program s calls) (running : s.running = ctx)
    (isCount : calls s.curThread = count) (positive : count ≠ 0) :
    ∃ answers next calls', (uthreads program mainThread main).run s answers = some next ∧
      Scheduled program next calls' ∧ next.threadCount = s.threadCount ∧
      ∀ index < s.threadCount, next.turnsLeft calls' index + 1 = s.turnsLeft calls index := by
  induction left generalizing s calls with
  | ret op => exact absurd rfl positive
  | @act ctx event next count op later ih =>
      rw [← running] at op
      obtain ⟨after, stepped, afterScheduled, threadCount, curThread, isNext⟩ :=
        scheduled.acts op (by rw [isCount]; exact later) ⟨default, none, false⟩
      obtain ⟨answers, final, calls', ran, finalScheduled, finalCount, turns⟩ :=
        ih default after calls afterScheduled isNext (by rw [curThread, isCount]) positive
      refine ⟨⟨default, none, false⟩ :: answers, final, calls', ?_, finalScheduled,
        finalCount.trans threadCount, ?_⟩
      · simpa only [System.run, uthreads, stepped] using ran
      · intro index registered
        have same : after.turnsLeft calls index = s.turnsLeft calls index := by
          simp only [State.turnsLeft, threadCount, curThread]
        rw [turns index (by rw [threadCount]; exact registered), same]
  | @schedule ctx next count op later ih =>
      rw [← running] at op
      obtain ⟨after, calls', stepped, afterScheduled, threadCount, turns⟩ :=
        scheduled.schedules op isCount later ⟨default, none, false⟩ rfl
      exact ⟨[⟨default, none, false⟩], after, calls', by simp only [System.run, uthreads, stepped],
        afterScheduled, threadCount, turns⟩

/-- A running thread with no call of `schedule` left reaches its return. -/
theorem reaches_return {ctx : Ctx} {count : Nat} (left : Calls program ctx count)
    (s : State Ctx Routine Arg Event Input) (calls : Nat → Nat)
    (scheduled : Scheduled program s calls) (running : s.running = ctx)
    (isCount : calls s.curThread = count) (nothing : count = 0) :
    ∃ answers final, (uthreads program mainThread main).run s answers = some final ∧
      final.exited = false ∧ final.curThread = s.curThread ∧ program.op final.running = .ret := by
  induction left generalizing s calls with
  | ret op => exact ⟨[], s, rfl, scheduled.running, rfl, by rw [running]; exact op⟩
  | @act ctx event next count op later ih =>
      rw [← running] at op
      obtain ⟨after, stepped, afterScheduled, _, curThread, isNext⟩ :=
        scheduled.acts op (by rw [isCount]; exact later) ⟨default, none, false⟩
      obtain ⟨answers, final, ran, live, finalCurrent, ends⟩ :=
        ih default after calls afterScheduled isNext (by rw [curThread, isCount]) nothing
      refine ⟨⟨default, none, false⟩ :: answers, final, ?_, live, finalCurrent.trans curThread, ends⟩
      simpa only [System.run, uthreads, stepped] using ran
  | schedule op later ih => cases nothing

/-- As long as every thread has so many turns left, nobody returns. -/
theorem reaches_turn (turns : Nat) (s : State Ctx Routine Arg Event Input) (calls : Nat → Nat)
    (scheduled : Scheduled program s calls)
    (enough : ∀ index < s.threadCount, turns ≤ s.turnsLeft calls index) :
    ∃ answers next calls', (uthreads program mainThread main).run s answers = some next ∧
      Scheduled program next calls' ∧ next.threadCount = s.threadCount ∧
      ∀ index < s.threadCount, next.turnsLeft calls' index + turns = s.turnsLeft calls index := by
  induction turns generalizing s calls with
  | zero => exact ⟨[], s, calls, rfl, scheduled, rfl, fun _ _ => rfl⟩
  | succ turns ih =>
      have current := scheduled.ring.current
      have positive : calls s.curThread ≠ 0 := by
        intro nothing
        have own := enough s.curThread current
        rw [State.turnsLeft, turnsUntil_current, nothing] at own
        omega
      obtain ⟨answers, next, calls', ran, nextScheduled, threadCount, once⟩ :=
        reaches_schedule mainThread main scheduled.current s calls scheduled rfl rfl positive
      obtain ⟨more, final, final', moreRan, finalScheduled, finalCount, rest⟩ :=
        ih next calls' nextScheduled (by
          intro index registered
          rw [threadCount] at registered
          have before := enough index registered
          have after := once index registered
          omega)
      refine ⟨answers ++ more, final, final', ?_, finalScheduled, finalCount.trans threadCount, ?_⟩
      · rw [System.run_append, ran]
        exact moreRan
      · intro index registered
        have after := once index registered
        have last := rest index (by rw [threadCount]; exact registered)
        omega

end Runs

theorem Scheduled.step {s next : State Ctx Routine Arg Event Input} {calls : Nat → Nat}
    {answer : Answer Input} (scheduled : Scheduled program s calls)
    (stepped : step program s answer = some next) :
    next.exited = true ∨ ∃ calls' used, Scheduled program next calls' ∧
      next.threadCount = s.threadCount ∧
      ∀ index < s.threadCount, next.turnsLeft calls' index + used = s.turnsLeft calls index := by
  have running := scheduled.running
  have left := scheduled.current
  generalize isCount : calls s.curThread = count at left
  cases left with
  | ret op =>
      simp only [Uthread.step, running, op, Bool.false_eq_true, if_false] at stepped
      cases stepped
      exact Or.inl rfl
  | act op later =>
      obtain ⟨after, isNext, afterScheduled, threadCount, curThread, _⟩ :=
        scheduled.acts op (by rw [isCount]; exact later) answer
      rw [stepped, Option.some.injEq] at isNext
      subst isNext
      exact Or.inr ⟨calls, 0, afterScheduled, threadCount, fun index _ => by
        simp only [State.turnsLeft, threadCount, curThread, Nat.add_zero]⟩
  | schedule op later =>
      cases failed : answer.err with
      | true =>
          simp only [Uthread.step, running, op, failed, Bool.false_eq_true, if_false] at stepped
          rw [(schedule_frame stepped).2, running]
          exact Or.inl rfl
      | false =>
          obtain ⟨after, calls', isNext, afterScheduled, threadCount, turns⟩ :=
            scheduled.schedules op isCount later answer failed
          rw [stepped, Option.some.injEq] at isNext
          subst isNext
          exact Or.inr ⟨calls', 1, afterScheduled, threadCount, turns⟩

/-- The main thread returns before every other thread. -/
def MainFirst (s : State Ctx Routine Arg Event Input) (calls : Nat → Nat) : Prop :=
  ∀ index, 0 < index → index < s.threadCount → s.turnsLeft calls 0 < s.turnsLeft calls index

theorem MainFirst.not_returning {s : State Ctx Routine Arg Event Input} {calls : Nat → Nat}
    (first : MainFirst s calls) (scheduled : Scheduled program s calls) :
    ¬ RoutineReturns program s := by
  intro assumed
  obtain ⟨_, notMain, op⟩ := assumed
  have left := scheduled.current
  generalize isCount : calls s.curThread = count at left
  have before := first s.curThread (Nat.pos_of_ne_zero notMain) scheduled.ring.current
  cases left with
  | ret _ =>
      rw [State.turnsLeft, State.turnsLeft, turnsUntil_current, isCount] at before
      omega
  | act other later =>
      rw [op] at other
      cases other
  | schedule other later =>
      rw [op] at other
      cases other

section Runs

variable (mainThread : Addr) (main : Ctx) {s : State Ctx Routine Arg Event Input}
  {calls : Nat → Nat}

/-- If main is first, no start routine returns in any run. -/
theorem MainFirst.always (first : MainFirst s calls) (scheduled : Scheduled program s calls)
    (answers : List (Answer Input)) :
    (uthreads program mainThread main).Always (fun later => ¬ RoutineReturns program later) s
      answers := by
  have invariant := System.always_of_meets (S := uthreads program mainThread main)
    (fun _ _ => True) (fun later => later.exited = true ∨
      ∃ calls, Scheduled program later calls ∧ MainFirst later calls) (by
    rintro later answer next (exited | ⟨calls, scheduled, first⟩) _ stepped
    · simp [uthreads, step, exited] at stepped
    · rcases scheduled.step stepped with exited | ⟨calls', used, after, threadCount, turns⟩
      · exact Or.inl exited
      · refine Or.inr ⟨calls', after, ?_⟩
        intro index notMain registered
        rw [threadCount] at registered
        have before := first index notMain registered
        have mainTurns := turns 0 (by omega)
        have ownTurns := turns index registered
        omega) s answers (Or.inr ⟨calls, scheduled, first⟩)
    (System.meets_of_actions _ s answers fun _ _ _ => trivial)
  refine invariant.mono ?_
  rintro later (exited | ⟨calls, scheduled, first⟩)
  · intro assumed
    obtain ⟨running, _⟩ := assumed
    rw [exited] at running
    cases running
  · exact first.not_returning scheduled

/-- If main is not first, some run gets to the return of a start routine. -/
theorem reaches_routine_return [Inhabited Input] (scheduled : Scheduled program s calls)
    (notFirst : ¬ MainFirst s calls) :
    ∃ answers final, (uthreads program mainThread main).run s answers = some final ∧
      RoutineReturns program final := by
  unfold MainFirst at notFirst
  push Not at notFirst
  obtain ⟨other, notMain, registered, early⟩ := notFirst
  obtain ⟨least, inTable, isLeast⟩ := Finset.exists_min_image (Finset.range s.threadCount)
    (s.turnsLeft calls) ⟨other, Finset.mem_range.mpr registered⟩
  have smallest : ∀ index < s.threadCount, s.turnsLeft calls least ≤ s.turnsLeft calls index :=
    fun index inRange => isLeast index (Finset.mem_range.mpr inRange)
  -- a thread other than main that nobody precedes
  obtain ⟨leader, leaderIn, notMain, first⟩ : ∃ leader < s.threadCount, leader ≠ 0 ∧
      ∀ index < s.threadCount, s.turnsLeft calls leader ≤ s.turnsLeft calls index := by
    by_cases isMain : least = 0
    · rw [isMain] at smallest
      exact ⟨other, registered, by omega, fun index inRange => early.trans (smallest index inRange)⟩
    · exact ⟨least, Finset.mem_range.mp inTable, isMain, smallest⟩
  obtain ⟨answers, next, calls', ran, nextScheduled, threadCount, turns⟩ :=
    reaches_turn mainThread main _ s calls scheduled first
  have itsTurn : next.turnsLeft calls' leader = 0 := by
    have own := turns leader leaderIn
    omega
  rw [State.turnsLeft, Nat.add_eq_zero_iff, Nat.mul_eq_zero] at itsTurn
  have current := turnsUntil_eq_zero nextScheduled.ring.current itsTurn.1
  have nothing : calls' next.curThread = 0 := by
    rw [← current]
    exact itsTurn.2.resolve_left (by omega)
  obtain ⟨more, final, moreRan, live, finalCurrent, ends⟩ :=
    reaches_return mainThread main nextScheduled.current next calls' nextScheduled rfl rfl nothing
  refine ⟨answers ++ more, final, ?_, live, by rw [finalCurrent, ← current]; exact notMain, ends⟩
  rw [System.run_append, ran]
  exact moreRan

end Runs

omit [DecidableEq Event] in
/-- While main runs, it is first iff it has the fewest calls left. -/
theorem mainFirst_iff {s : State Ctx Routine Arg Event Input} (calls : Nat → Nat)
    (isMain : s.curThread = 0) :
    MainFirst s calls ↔ ∀ index, 0 < index → index < s.threadCount → calls 0 ≤ calls index := by
  apply forall_congr'
  intro index
  apply imp_congr_right
  intro notMain
  apply imp_congr_right
  intro registered
  simp only [State.turnsLeft, isMain, turnsUntil, Nat.zero_le, if_true, Nat.sub_zero, Nat.zero_add]
  constructor
  · intro first
    by_contra fewer
    have more : s.threadCount * (calls index + 1) ≤ s.threadCount * calls 0 :=
      Nat.mul_le_mul_left _ (by omega)
    rw [Nat.mul_succ] at more
    omega
  · intro fewest
    have fewer := Nat.mul_le_mul_left s.threadCount fewest
    omega

/-- A return of a start routine is outlived only in runs without one; and where
the threads have a fixed number of calls left, every run is such a run exactly
when main returns first. -/
theorem finishing_iff [Inhabited Input] (program : Program Ctx Routine Arg Event Input)
    (mainThread : Addr) (main : Ctx) :
    (∀ answers,
      (uthreads program mainThread main).Always (Survives program mainThread main)
          (schedulerInit mainThread main) answers ↔
        (uthreads program mainThread main).Always (fun s => ¬ RoutineReturns program s)
          (schedulerInit mainThread main) answers) ∧
      ∀ before s calls,
        (uthreads program mainThread main).run (schedulerInit mainThread main) before = some s →
        s.exited = false → RunsOut program s calls →
          ((∀ answers, (uthreads program mainThread main).Always
              (Survives program mainThread main) s answers) ↔ MainFirst s calls) := by
  have pointwise : ∀ s : State Ctx Routine Arg Event Input,
      Survives program mainThread main s ↔ ¬ RoutineReturns program s :=
    fun s => survives_iff mainThread main s
  refine ⟨fun answers => ⟨fun holds => holds.mono fun s => (pointwise s).mp,
    fun holds => holds.mono fun s => (pointwise s).mpr⟩, ?_⟩
  intro before s calls ran running runsOut
  have reached : (uthreads program mainThread main).Reachable s := ⟨before, ran⟩
  have ring : Ring program s := reached.invariant (Ring program) (start_ring mainThread main)
    (fun _ _ _ ring stepped => ring_step ring stepped)
  have scheduled := scheduled_of_runsOut ring running runsOut
  constructor
  · intro survives
    by_contra notFirst
    obtain ⟨answers, final, toReturn, returns⟩ :=
      reaches_routine_return mainThread main scheduled notFirst
    have holds := (survives (answers ++ [])).along answers [] toReturn
    exact (pointwise final).mp holds returns
  · intro first answers
    exact (first.always mainThread main scheduled answers).mono fun s => (pointwise s).mpr

/-! ## A routine that is done before main -/

inductive Place where
  | mainCreate
  | mainSchedule
  | mainPrint
  | mainEnd
  | routine

/-- Main creates one thread, calls `schedule`, prints and returns; the start
routine returns at once. -/
def shortRoutine : Program Place Unit Unit Unit Unit where
  enter _ _ := .routine
  op
    | .mainCreate => .create () () fun _ => .mainSchedule
    | .mainSchedule => .schedule .mainPrint
    | .mainPrint => .act () fun _ => .mainEnd
    | .mainEnd => .ret
    | .routine => .ret

def created : Answer Unit := ⟨(), some 2, false⟩

def goesOn : Answer Unit := ⟨(), none, false⟩

/-- Main has one call of `schedule` left, and the routine none. -/
theorem shortRoutine_exact : ∃ s : State Place Unit Unit Unit Unit, ∃ calls,
    (uthreads shortRoutine 1 .mainCreate).run (schedulerInit 1 .mainCreate) [created] = some s ∧
      s.exited = false ∧ RunsOut shortRoutine s calls ∧
      ((∀ answers, (uthreads shortRoutine 1 .mainCreate).Always
        (Survives shortRoutine 1 .mainCreate) s answers) ↔ MainFirst s calls) := by
  have ran : ∃ s, (uthreads shortRoutine 1 .mainCreate).run (schedulerInit 1 .mainCreate)
      [created] = some s ∧ s.exited = false ∧ s.threadCount = 2 ∧
        s.contextOf shortRoutine 0 = some .mainSchedule ∧
        s.contextOf shortRoutine 1 = some .routine := ⟨_, rfl, rfl, rfl, rfl, rfl⟩
  obtain ⟨s, ran, running, two, main, routine⟩ := ran
  have runsOut : RunsOut shortRoutine s (fun index => if index = 0 then 1 else 0) := by
    intro index registered
    rw [two] at registered
    by_cases isMain : index = 0
    · subst isMain
      exact ⟨_, main, .schedule rfl (.act rfl fun _ => .ret rfl)⟩
    · have isRoutine : index = 1 := by omega
      subst isRoutine
      exact ⟨_, routine, .ret rfl⟩
  exact ⟨s, _, ran, running, runsOut,
    (finishing_iff shortRoutine 1 .mainCreate).2 [created] s _ ran running runsOut⟩

/-- The process is over before main prints. -/
theorem main_lost :
    ¬ (uthreads shortRoutine 1 .mainCreate).Always (Survives shortRoutine 1 .mainCreate)
        (schedulerInit 1 .mainCreate) [created, goesOn] ∧
      ∃ final, (uthreads shortRoutine 1 .mainCreate).run (schedulerInit 1 .mainCreate)
          [created, goesOn, goesOn] = some final ∧
        final.exited = true ∧ final.curThread = 1 ∧
          final.contextOf shortRoutine 0 = some .mainPrint := by
  constructor
  · intro holds
    have atReturn := System.Always.along (S := uthreads shortRoutine 1 .mainCreate)
      [created, goesOn] [] holds rfl
    have never := (survives_iff 1 Place.mainCreate _).mp atReturn
    exact never ⟨rfl, by decide, rfl⟩
  · exact ⟨_, rfl, rfl, rfl, rfl⟩

end OsLabs.Uthread
