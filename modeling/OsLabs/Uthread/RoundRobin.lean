import OsLabs.Uthread.Scheduler

/-!
# Round-robin scheduling of user threads

Every thread of the table but the running one is parked in its structure, at
the place to which what it has done has brought it.  `schedule` therefore
resumes the next thread where it left off, and its turns go round the table.
-/

set_option autoImplicit false

namespace OsLabs.Uthread

open OsLabs.Rotation OsLabs.Transition

variable {Ctx Routine Arg Event Input : Type} [DecidableEq Event]
  {program : Program Ctx Routine Arg Event Input}

/-- A thread that has not run yet, or that is inside its last call of
`schedule`. -/
inductive Parked (program : Program Ctx Routine Arg Event Input) (addr : Addr)
    (thread : UThread Ctx Routine Arg) (started : Ctx) (history : List (Did Event Input)) : Prop where
  | fresh {startRoutine : Routine} {arg : Arg} (start : thread.start = some (startRoutine, arg))
      (context : thread.context = .uthreadStart addr)
      (begins : started = program.enter startRoutine arg) (nothing : history = [])
  | saved {ctx : Ctx} {earlier : List (Did Event Input)} (context : thread.context = .saved ctx)
      (ends : history = earlier ++ [.scheduled]) (ran : program.alone started history = some ctx)

/-- The context of a thread of the table. -/
def State.contextOf (program : Program Ctx Routine Arg Event Input)
    (s : State Ctx Routine Arg Event Input) (index : Nat) : Option Ctx :=
  if index = s.curThread then some s.running
  else do
    let addr ← s.threads index
    let thread ← s.heap addr
    resume program s.heap thread.context

structure RoundRobin (program : Program Ctx Routine Arg Event Input)
    (s : State Ctx Routine Arg Event Input) : Prop where
  bounded : s.curThread < s.threadCount ∧ s.threadCount ≤ maxThreads
  own : s.exited = false → ∀ index < s.threadCount, ∃ ctx,
    s.contextOf program index = some ctx ∧
      program.alone (s.started index) (s.history index) = some ctx
  resumes : s.exited = false → ∀ after, program.op s.running = .schedule after →
    ∀ answer : Answer Input, answer.err = false → ∃ next, step program s answer = some next ∧
      next.curThread = (s.curThread + 1) % s.threadCount ∧ next.started = s.started ∧
      next.history = Function.update s.history s.curThread (s.history s.curThread ++ [.scheduled]) ∧
      (next.history next.curThread = [] ∨
        ∃ earlier, next.history next.curThread = earlier ++ [.scheduled]) ∧
      program.alone (next.started next.curThread) (next.history next.curThread) = some next.running
  once : ∀ front turn middle again back, s.turns = front ++ turn :: middle ++ again :: back →
    again.place = turn.place → (∀ other ∈ middle, other.place ≠ turn.place) →
      ∀ index < turn.size, index ≠ turn.place → (middle.map Turn.place).count index = 1

/-! ## The invariant -/

structure Live (program : Program Ctx Routine Arg Event Input)
    (s : State Ctx Routine Arg Event Input) : Prop where
  slots : ∀ index < s.threadCount, ∃ addr thread, s.threads index = some addr ∧
    s.heap addr = some thread ∧ addr ∈ s.allocated ∧
      (index ≠ s.curThread → Parked program addr thread (s.started index) (s.history index))
  distinct : ∀ first < s.threadCount, ∀ second < s.threadCount,
    s.threads first = s.threads second → first = second
  unborn : ∀ index, s.threadCount ≤ index → s.history index = []
  running : program.alone (s.started s.curThread) (s.history s.curThread) = some s.running
  last : ∃ turn, s.turns.getLast? = some turn ∧ turn.place = s.curThread ∧ turn.size ≤ s.threadCount

structure Ring (program : Program Ctx Routine Arg Event Input)
    (s : State Ctx Routine Arg Event Input) : Prop where
  current : s.curThread < s.threadCount
  fits : s.threadCount < maxThreads
  rotates : Rotates s.turns
  live : s.exited = false → Live program s

theorem Parked.resumed {heap : Addr → Option (UThread Ctx Routine Arg)} {addr : Addr}
    {thread : UThread Ctx Routine Arg} {started : Ctx} {history : List (Did Event Input)}
    (parked : Parked program addr thread started history) (loaded : heap addr = some thread) :
    ∃ ctx, resume program heap thread.context = some ctx ∧
      program.alone started history = some ctx ∧
      (history = [] ∨ ∃ earlier, history = earlier ++ [.scheduled]) := by
  cases parked with
  | fresh start context begins nothing =>
      refine ⟨started, ?_, ?_, Or.inl nothing⟩
      · rw [context, begins]
        simp [resume, loaded, start]
      · rw [nothing]
        rfl
  | saved context ends ran =>
      refine ⟨_, ?_, ran, Or.inr ⟨_, ends⟩⟩
      rw [context]
      rfl

/-! ## Steps -/

/-- What `uthread_create` does to the table. -/
inductive Creates (program : Program Ctx Routine Arg Event Input)
    (s : State Ctx Routine Arg Event Input) : Option Addr → State Ctx Routine Arg Event Input → Prop where
  | fails {heap : Addr → Option (UThread Ctx Routine Arg)} {allocated : List Addr}
      (more : s.allocated ⊆ allocated)
      (elsewhere : ∀ addr ∈ s.allocated, heap addr = s.heap addr) :
      Creates program s none { s with heap := heap, allocated := allocated }
  | succeeds {thread : Addr} {startRoutine : Routine} {arg : Arg}
      (fresh : thread ∉ s.allocated) (room : s.threadCount < maxThreads - 1) :
      Creates program s (some thread)
        { s with
          allocated := thread :: s.allocated
          heap := Function.update s.heap thread (some ⟨some (startRoutine, arg), .uthreadStart thread⟩)
          threads := Function.update s.threads s.threadCount (some thread)
          threadCount := s.threadCount + 1
          started := Function.update s.started s.threadCount (program.enter startRoutine arg) }

omit [DecidableEq Event] in
theorem uthreadCreate_creates (s : State Ctx Routine Arg Event Input) (startRoutine : Routine)
    (arg : Arg) (region : Option Addr) (err : Bool) :
    Creates program s (s.uthreadCreate program startRoutine arg region err).1
      (s.uthreadCreate program startRoutine arg region err).2 := by
  unfold State.uthreadCreate
  split
  · exact .fails (List.Subset.refl _) fun _ _ => rfl
  · rename_i thread found
    have fresh : thread ∉ s.allocated := by
      have kept := Option.mem_filter_iff.mp (Option.mem_def.mpr found)
      simpa using kept.2
    by_cases failed : err = true
    · simp only [failed, if_true]
      exact .fails (List.subset_cons_self _ _) fun _ _ => rfl
    · simp only [failed]
      split
      · cases ‹false = true›
      · split
        · refine .fails (List.subset_cons_self _ _) fun addr allocated => ?_
          rw [Function.update_of_ne]
          intro same
          subst same
          exact fresh allocated
        · rename_i room
          exact .succeeds fresh (Nat.lt_of_not_le room)

section Schedule

variable {s : State Ctx Routine Arg Event Input} {after : Ctx}

omit [DecidableEq Event] in
theorem record_history_of_ne (did : Did Event Input) {index : Nat}
    (elsewhere : index ≠ s.curThread) : (s.record did).history index = s.history index :=
  Function.update_of_ne elsewhere _ _

theorem Live.unborn_record {did : Did Event Input} (live : Live program s)
    (current : s.curThread < s.threadCount) (index : Nat) (unborn : s.threadCount ≤ index) :
    (s.record did).history index = [] := by
  rw [record_history_of_ne did (by omega)]
  exact live.unborn index unborn

/-- Once the running context is saved, every thread of the table is parked. -/
theorem Live.all_parked (live : Live program s) (current : s.curThread < s.threadCount)
    (calls : program.op s.running = .schedule after) :
    ∃ addr thread, s.threads s.curThread = some addr ∧ s.heap addr = some thread ∧
      ∀ index < s.threadCount, ∃ slot parked, s.threads index = some slot ∧
        Function.update s.heap addr (some { thread with context := .saved after }) slot =
          some parked ∧ slot ∈ s.allocated ∧
        Parked program slot parked (s.started index) ((s.record .scheduled).history index) := by
  obtain ⟨addr, thread, isAddr, loaded, allocated, _⟩ := live.slots s.curThread current
  refine ⟨addr, thread, isAddr, loaded, ?_⟩
  intro index registered
  by_cases isCurrent : index = s.curThread
  · subst isCurrent
    refine ⟨addr, { thread with context := .saved after }, isAddr, by simp, allocated, ?_⟩
    have returns : (program.op s.running).follow .scheduled = some after := by
      rw [calls]
      rfl
    refine .saved rfl (Function.update_self _ _ _) ?_
    simpa [State.record] using alone_snoc live.running returns
  · obtain ⟨slot, parked, isSlot, isParked, slotAllocated, isHere⟩ := live.slots index registered
    have different : slot ≠ addr := by
      intro same
      subst same
      exact isCurrent (live.distinct index registered s.curThread current (isSlot.trans isAddr.symm))
    refine ⟨slot, parked, isSlot, ?_, slotAllocated, ?_⟩
    · rw [Function.update_of_ne different, isParked]
    · simpa [State.record, Function.update_of_ne isCurrent] using isHere isCurrent

theorem Ring.schedule (ring : Ring program s) (running : s.exited = false)
    (calls : program.op s.running = .schedule after) :
    ∃ next, s.schedule program after false = some next ∧ Ring program next ∧
      next.curThread = (s.curThread + 1) % s.threadCount ∧ next.started = s.started ∧
      next.history = Function.update s.history s.curThread (s.history s.curThread ++ [.scheduled]) ∧
      (next.history next.curThread = [] ∨
        ∃ earlier, next.history next.curThread = earlier ++ [.scheduled]) ∧
      program.alone (next.started next.curThread) (next.history next.curThread) =
        some next.running := by
  have live := ring.live running
  have current := ring.current
  obtain ⟨addr, thread, isAddr, loaded, allParked⟩ := live.all_parked current calls
  have inside : (s.curThread + 1) % s.threadCount < s.threadCount := Nat.mod_lt _ (by omega)
  obtain ⟨slot, parked, isSlot, isParked, slotAllocated, isHere⟩ := allParked _ inside
  obtain ⟨ctx, resumed, ran, ends⟩ := isHere.resumed isParked
  refine ⟨{ s.record .scheduled with
    curThread := (s.curThread + 1) % s.threadCount
    heap := Function.update s.heap addr (some { thread with context := .saved after })
    running := ctx
    turns := s.turns ++ [⟨(s.curThread + 1) % s.threadCount, s.threadCount⟩] }, ?_, ?_,
    rfl, rfl, rfl, ends, ran⟩
  · simp only [State.schedule, State.record, isAddr, isSlot, Option.bind_eq_bind, Option.bind_some,
      Bool.false_eq_true, if_false, loaded, isParked, resumed]
  · obtain ⟨turn, isLast, isPlace, fits⟩ := live.last
    refine ⟨inside, ring.fits, ?_, fun _ => ⟨?_, live.distinct, live.unborn_record current, ran, ?_⟩⟩
    · refine ring.rotates.snoc isLast ⟨fits, ?_⟩
      rw [isPlace]
    · intro index registered
      obtain ⟨otherSlot, other, isOther, isLoaded, allocated, parkedThere⟩ :=
        allParked index registered
      exact ⟨otherSlot, other, isOther, isLoaded, allocated, fun _ => parkedThere⟩
    · exact ⟨⟨(s.curThread + 1) % s.threadCount, s.threadCount⟩, by simp, rfl, le_refl _⟩

/-- `swapcontext` fails: the process ends. -/
theorem Ring.schedule_fails {next : State Ctx Routine Arg Event Input} (ring : Ring program s)
    (scheduled : s.schedule program after true = some next) : Ring program next := by
  simp only [State.schedule, if_true] at scheduled
  obtain ⟨current, _, scheduled⟩ := Option.bind_eq_some_iff.mp scheduled
  obtain ⟨slot, _, scheduled⟩ := Option.bind_eq_some_iff.mp scheduled
  cases scheduled
  have current := ring.current
  exact ⟨Nat.mod_lt _ (by simp only [State.record]; omega), ring.fits, ring.rotates,
    fun live => by cases live⟩

end Schedule

/-- The running thread does something of its own. -/
theorem Live.acts {s : State Ctx Routine Arg Event Input} {did : Did Event Input} {ctx : Ctx}
    (live : Live program s) (current : s.curThread < s.threadCount)
    (follows : (program.op s.running).follow did = some ctx) :
    Live program { s.record did with running := ctx } := by
  refine ⟨?_, live.distinct, live.unborn_record current, ?_, live.last⟩
  · intro index registered
    obtain ⟨addr, thread, isAddr, loaded, allocated, parked⟩ := live.slots index registered
    refine ⟨addr, thread, isAddr, loaded, allocated, ?_⟩
    intro (elsewhere : index ≠ s.curThread)
    show Parked program addr thread (s.started index) ((s.record did).history index)
    rw [record_history_of_ne did elsewhere]
    exact parked elsewhere
  · simpa [State.record] using alone_snoc live.running follows

theorem Live.creates {s after : State Ctx Routine Arg Event Input} {thr : Option Addr}
    (live : Live program s) (current : s.curThread < s.threadCount)
    (creates : Creates program s thr after) : Live program after := by
  cases creates with
  | fails more elsewhere =>
      refine ⟨?_, live.distinct, live.unborn, live.running, live.last⟩
      intro index registered
      obtain ⟨addr, thread, isAddr, loaded, allocated, parked⟩ := live.slots index registered
      exact ⟨addr, thread, isAddr, (elsewhere addr allocated).trans loaded, more allocated, parked⟩
  | @succeeds thread startRoutine arg fresh room =>
      have old : ∀ index < s.threadCount, index ≠ s.threadCount := fun index below => by omega
      have isNew : ∀ index < s.threadCount + 1, ¬ index < s.threadCount → index = s.threadCount :=
        fun index below notOld => by omega
      have notSlot : ∀ index < s.threadCount, s.threads index ≠ some thread := by
        intro index registered isThread
        obtain ⟨addr, _, isAddr, _, allocated, _⟩ := live.slots index registered
        rw [isThread, Option.some.injEq] at isAddr
        rw [← isAddr] at allocated
        exact fresh allocated
      refine ⟨?_, ?_, ?_, ?_, ?_⟩
      · intro index registered
        by_cases isOld : index < s.threadCount
        · obtain ⟨addr, other, isAddr, loaded, allocated, parked⟩ := live.slots index isOld
          have different : addr ≠ thread := by
            intro same
            subst same
            exact notSlot index isOld isAddr
          refine ⟨addr, other, ?_, ?_, List.mem_cons_of_mem _ allocated, ?_⟩
          · simpa [Function.update_of_ne (old index isOld)] using isAddr
          · simpa [Function.update_of_ne different] using loaded
          · simpa [Function.update_of_ne (old index isOld)] using parked
        · have isCount := isNew index registered isOld
          subst isCount
          refine ⟨thread, ⟨some (startRoutine, arg), .uthreadStart thread⟩, by simp, by simp,
            by simp, fun _ => ?_⟩
          exact .fresh rfl rfl (by simp) (live.unborn _ (le_refl _))
      · intro first firstIn second secondIn same
        by_cases firstOld : first < s.threadCount
        · by_cases secondOld : second < s.threadCount
          · simp only [Function.update_of_ne (old first firstOld),
              Function.update_of_ne (old second secondOld)] at same
            exact live.distinct first firstOld second secondOld same
          · have isCount := isNew second secondIn secondOld
            subst isCount
            simp only [Function.update_of_ne (old first firstOld), Function.update_self] at same
            exact absurd same (notSlot first firstOld)
        · have isCount := isNew first firstIn firstOld
          subst isCount
          by_cases secondOld : second < s.threadCount
          · simp only [Function.update_of_ne (old second secondOld), Function.update_self] at same
            exact absurd same.symm (notSlot second secondOld)
          · exact (isNew second secondIn secondOld).symm
      · intro index unborn
        exact live.unborn index (by simp only at unborn; omega)
      · simpa [Function.update_of_ne (old _ current)] using live.running
      · obtain ⟨turn, isLast, isPlace, fits⟩ := live.last
        exact ⟨turn, isLast, isPlace, by simp only; omega⟩

omit [DecidableEq Event] in
theorem creates_frame {s after : State Ctx Routine Arg Event Input} {thr : Option Addr}
    (creates : Creates program s thr after) :
    after.running = s.running ∧ after.curThread = s.curThread ∧ after.turns = s.turns ∧
      s.threadCount ≤ after.threadCount ∧
      (s.threadCount < maxThreads → after.threadCount < maxThreads) := by
  cases creates with
  | fails more elsewhere => exact ⟨rfl, rfl, rfl, le_refl _, id⟩
  | succeeds fresh room => exact ⟨rfl, rfl, rfl, Nat.le_succ _, fun _ => Nat.add_lt_of_lt_sub room⟩

theorem Ring.creates {s after : State Ctx Routine Arg Event Input} {thr : Option Addr}
    (ring : Ring program s) (running : s.exited = false) (creates : Creates program s thr after) :
    Ring program after := by
  obtain ⟨_, sameCurrent, sameTurns, grown, fits⟩ := creates_frame creates
  refine ⟨?_, fits ring.fits, by rw [sameTurns]; exact ring.rotates, fun _ => ?_⟩
  · rw [sameCurrent]
    exact Nat.lt_of_lt_of_le ring.current grown
  · exact (ring.live running).creates ring.current creates

theorem ring_step {s next : State Ctx Routine Arg Event Input} {answer : Answer Input}
    (ring : Ring program s) (stepped : step program s answer = some next) : Ring program next := by
  unfold step at stepped
  split at stepped
  · cases stepped
  rename_i notExited
  have running : s.exited = false := by simpa using notExited
  split at stepped
  · rename_i event after calls
    cases stepped
    refine ⟨ring.current, ring.fits, ring.rotates, fun _ => ?_⟩
    refine (ring.live running).acts ring.current ?_
    rw [calls]
    simp [Op.follow]
  · rename_i startRoutine arg after calls
    have creates : Creates program s
        (s.uthreadCreate program startRoutine arg answer.region answer.err).1
        (s.uthreadCreate program startRoutine arg answer.region answer.err).2 :=
      uthreadCreate_creates s startRoutine arg answer.region answer.err
    generalize s.uthreadCreate program startRoutine arg answer.region answer.err = created
      at creates stepped
    obtain ⟨thr, made⟩ := created
    cases stepped
    have madeRing := ring.creates running creates
    refine ⟨madeRing.current, madeRing.fits, madeRing.rotates, fun live => ?_⟩
    refine (madeRing.live live).acts madeRing.current ?_
    rw [(creates_frame creates).1, calls]
    rfl
  · rename_i after calls
    cases failed : answer.err with
    | false =>
        obtain ⟨scheduled, isNext, scheduledRing, _⟩ := ring.schedule running calls
        rw [failed, isNext] at stepped
        cases stepped
        exact scheduledRing
    | true =>
        rw [failed] at stepped
        exact ring.schedule_fails stepped
  · cases stepped
    exact ⟨ring.current, ring.fits, ring.rotates, fun live => by cases live⟩

theorem start_ring (mainThread : Addr) (main : Ctx) :
    Ring program (schedulerInit mainThread main) := by
  refine ⟨Nat.zero_lt_one, show 1 < maxThreads by decide, rotates_single Nat.zero_lt_one,
    fun _ => ⟨?_, ?_, ?_, rfl, ?_⟩⟩
  · intro index registered
    have isMain : index = 0 := Nat.lt_one_iff.mp registered
    subst isMain
    refine ⟨mainThread, ⟨none, .saved main⟩, by simp [schedulerInit], by simp [schedulerInit],
      by simp [schedulerInit], fun elsewhere => absurd rfl elsewhere⟩
  · intro first firstIn second secondIn _
    rw [Nat.lt_one_iff.mp firstIn, Nat.lt_one_iff.mp secondIn]
  · intro index _
    rfl
  · exact ⟨⟨0, 1⟩, rfl, rfl, le_refl _⟩

/-! ## Every run -/

theorem Ring.roundRobin {s : State Ctx Routine Arg Event Input} (ring : Ring program s) :
    RoundRobin program s := by
  refine ⟨⟨ring.current, ring.fits.le⟩, ?_, ?_, ?_⟩
  · intro running index registered
    have live := ring.live running
    unfold State.contextOf
    by_cases isCurrent : index = s.curThread
    · rw [if_pos isCurrent, isCurrent]
      exact ⟨s.running, rfl, live.running⟩
    · obtain ⟨addr, thread, isAddr, loaded, _, parked⟩ := live.slots index registered
      obtain ⟨ctx, resumed, ran, _⟩ := (parked isCurrent).resumed loaded
      refine ⟨ctx, ?_, ran⟩
      simp [isCurrent, isAddr, loaded, resumed]
  · intro running after calls answer noError
    obtain ⟨next, scheduled, _, resumes⟩ := ring.schedule running calls
    refine ⟨next, ?_, resumes⟩
    simp only [step, running, calls, noError, scheduled, Bool.false_eq_true, if_false]
  · intro front turn middle again back isTurns same absent index registered elsewhere
    have rotates := ring.rotates
    rw [isTurns] at rotates
    exact rotates.once same absent registered elsewhere

/-- Every state of every run of a program with user threads. -/
theorem round_robin (program : Program Ctx Routine Arg Event Input) (mainThread : Addr) (main : Ctx)
    (answers : List (Answer Input)) :
    (uthreads program mainThread main).Always (RoundRobin program) (schedulerInit mainThread main)
      answers :=
  System.always_of_invariant (Ring program) (start_ring mainThread main)
    (fun _ _ _ ring stepped => ring_step ring stepped) (fun _ ring => ring.roundRobin) answers

end OsLabs.Uthread
