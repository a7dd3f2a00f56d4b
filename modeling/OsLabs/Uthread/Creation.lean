import OsLabs.Uthread.Scheduler

/-!
# What a failed creation leaves behind

`uthread_create` maps the region of a thread before it asks for a context and
before it looks whether the table is full, and neither of these exits unmaps it.
`scheduler_destroy` knows of no region but those of the table.
`creation_accounted_iff` says which calls may be made.
-/

set_option autoImplicit false

namespace OsLabs.Uthread

open OsLabs.Transition

variable {Ctx Routine Arg Event Input : Type}

/-! ## Calls of the library -/

/-- A call of `uthread_create` with the variable for the handle, what `mmap`
returns and whether `getcontext` fails. -/
structure Creation (Routine Arg : Type) where
  thr : Nat
  startRoutine : Routine
  arg : Arg
  region : Option Addr
  err : Bool

/-- The library and the variables of type `uthread_t` of its caller. -/
structure Caller (Ctx Routine Arg Event Input : Type) where
  sched : State Ctx Routine Arg Event Input
  handles : Nat → Option Addr

/-- The region that a call gets. -/
def State.mapped (s : State Ctx Routine Arg Event Input) (call : Creation Routine Arg) :
    Option Addr :=
  call.region.filter fun found => found ∉ s.allocated

/-- The call, and whether it returns -1. -/
def Caller.create (program : Program Ctx Routine Arg Event Input)
    (c : Caller Ctx Routine Arg Event Input) (call : Creation Routine Arg) :
    Bool × Caller Ctx Routine Arg Event Input :=
  match c.sched.uthreadCreate program call.startRoutine call.arg call.region call.err with
  | (none, sched) => (true, { c with sched := sched })
  | (some thread, sched) => (false, ⟨sched, Function.update c.handles call.thr (some thread)⟩)

namespace State

/-- `free` or `munmap` of what a slot of the table refers to. -/
def release (s : State Ctx Routine Arg Event Input) (index : Nat) :
    Option (State Ctx Routine Arg Event Input) := do
  let thread ← s.threads index
  if thread ∈ s.allocated then some { s with allocated := s.allocated.erase thread } else none

/-- The main thread's structure first, then the regions of the others. -/
def schedulerDestroy (s : State Ctx Routine Arg Event Input) :
    Option (State Ctx Routine Arg Event Input) := do
  let freed ← s.release 0
  (List.range' 1 (s.threadCount - 1)).foldlM release freed

end State

def creations (program : Program Ctx Routine Arg Event Input) (mainThread : Addr) (main : Ctx)
    (handles : Nat → Option Addr) :
    System (Caller Ctx Routine Arg Event Input) (Creation Routine Arg) :=
  ⟨⟨schedulerInit mainThread main, handles⟩, fun c call => some (c.create program call).2⟩

/-- A call that returns -1 changes neither the table nor a handle nor what is
mapped. -/
def Atomic (program : Program Ctx Routine Arg Event Input) (c : Caller Ctx Routine Arg Event Input)
    (call : Creation Routine Arg) : Prop :=
  (c.create program call).1 = true →
    (c.create program call).2.sched.threads = c.sched.threads ∧
      (c.create program call).2.sched.threadCount = c.sched.threadCount ∧
      (c.create program call).2.sched.curThread = c.sched.curThread ∧
      (c.create program call).2.handles = c.handles ∧
      ∀ region, region ∈ (c.create program call).2.sched.allocated ↔ region ∈ c.sched.allocated

/-- The regions are those of the table, and `scheduler_destroy` releases each
of them once. -/
structure Accounted (mainThread : Addr) (c : Caller Ctx Routine Arg Event Input) : Prop where
  inBounds : c.sched.threadCount ≤ maxThreads ∧
    ∀ index, maxThreads ≤ index → c.sched.threads index = none
  main : c.sched.threads 0 = some mainThread
  mapped : ∀ region, (region ∈ c.sched.allocated ∧ region ≠ mainThread) ↔
    ∃ index, 0 < index ∧ index < c.sched.threadCount ∧ c.sched.threads index = some region
  once : c.sched.allocated.Nodup
  destroyed : ∃ final, c.sched.schedulerDestroy = some final ∧ final.allocated = []

/-- A call that gets a region also gets a context and a slot. -/
def Completes (c : Caller Ctx Routine Arg Event Input) (call : Creation Routine Arg) : Prop :=
  ∀ region, c.sched.mapped call = some region →
    call.err = false ∧ c.sched.threadCount < maxThreads - 1

/-! ## What a call does -/

section Calls

variable (program : Program Ctx Routine Arg Event Input) {c : Caller Ctx Routine Arg Event Input}
  {call : Creation Routine Arg}

theorem create_no_region (nothing : c.sched.mapped call = none) :
    c.create program call = (true, c) := by
  unfold State.mapped at nothing
  simp only [Caller.create, State.uthreadCreate, nothing]

/-- One of the two exits after `mmap`. -/
theorem create_leaks {region : Addr} (isRegion : c.sched.mapped call = some region)
    (incomplete : ¬ (call.err = false ∧ c.sched.threadCount < maxThreads - 1)) :
    ∃ heap, c.create program call = (true, { c with
      sched := { c.sched with heap := heap, allocated := region :: c.sched.allocated } }) := by
  unfold State.mapped at isRegion
  by_cases failed : call.err = true
  · refine ⟨c.sched.heap, ?_⟩
    simp only [Caller.create, State.uthreadCreate, isRegion, if_pos failed]
  · have full : c.sched.threadCount ≥ maxThreads - 1 := by
      by_contra room
      exact incomplete ⟨by simpa using failed, Nat.lt_of_not_ge room⟩
    refine ⟨Function.update c.sched.heap region
      (some ⟨some (call.startRoutine, call.arg), .uthreadStart region⟩), ?_⟩
    simp only [Caller.create, State.uthreadCreate, isRegion, if_neg failed, if_pos full]

theorem create_completes {region : Addr} (isRegion : c.sched.mapped call = some region)
    (complete : call.err = false ∧ c.sched.threadCount < maxThreads - 1) :
    (c.create program call).1 = false ∧
      (c.create program call).2.sched.allocated = region :: c.sched.allocated ∧
      (c.create program call).2.sched.threads =
        Function.update c.sched.threads c.sched.threadCount (some region) ∧
      (c.create program call).2.sched.threadCount = c.sched.threadCount + 1 := by
  unfold State.mapped at isRegion
  have noError : ¬ call.err = true := by simp [complete.1]
  have room : ¬ c.sched.threadCount ≥ maxThreads - 1 := Nat.not_le_of_lt complete.2
  simp only [Caller.create, State.uthreadCreate, isRegion, if_neg noError, if_neg room,
    and_self]

theorem mapped_fresh {region : Addr} (isRegion : c.sched.mapped call = some region) :
    region ∉ c.sched.allocated := by
  have kept := Option.mem_filter_iff.mp (Option.mem_def.mpr isRegion)
  simpa using kept.2

theorem atomic_iff : Atomic program c call ↔ Completes c call := by
  constructor
  · intro atomic region isRegion
    by_contra incomplete
    obtain ⟨heap, created⟩ := create_leaks program isRegion incomplete
    obtain ⟨_, _, _, _, same⟩ := atomic (by rw [created])
    rw [created] at same
    exact mapped_fresh isRegion ((same region).mp List.mem_cons_self)
  · intro completes failed
    cases isRegion : c.sched.mapped call with
    | none =>
        rw [create_no_region program isRegion]
        exact ⟨rfl, rfl, rfl, rfl, fun _ => Iff.rfl⟩
    | some region =>
        have succeeds := (create_completes program isRegion (completes region isRegion)).1
        rw [succeeds] at failed
        cases failed

end Calls

/-! ## The table and the regions -/

structure Owned (mainThread : Addr) (s : State Ctx Routine Arg Event Input) : Prop where
  count : 0 < s.threadCount ∧ s.threadCount < maxThreads
  main : s.threads 0 = some mainThread
  slots : ∀ index < s.threadCount, ∃ addr ∈ s.allocated, s.threads index = some addr
  unused : ∀ index, s.threadCount ≤ index → s.threads index = none
  distinct : ∀ first < s.threadCount, ∀ second < s.threadCount,
    s.threads first = s.threads second → first = second
  known : ∀ addr ∈ s.allocated, ∃ index < s.threadCount, s.threads index = some addr
  once : s.allocated.Nodup

section Release

variable {s : State Ctx Routine Arg Event Input}

theorem release_slot {index : Nat} {addr : Addr} (isAddr : s.threads index = some addr)
    (allocated : addr ∈ s.allocated) :
    s.release index = some { s with allocated := s.allocated.erase addr } := by
  simp only [State.release, isAddr, Option.bind_eq_bind, Option.bind_some, if_pos allocated]

/-- Slots that refer to different regions are released one after the other. -/
theorem release_slots (indices : List Nat) (different : indices.Nodup) (once : s.allocated.Nodup)
    (slots : ∀ index ∈ indices, ∃ addr ∈ s.allocated, s.threads index = some addr)
    (distinct : ∀ first ∈ indices, ∀ second ∈ indices,
      s.threads first = s.threads second → first = second) :
    ∃ final, indices.foldlM State.release s = some final ∧
      ∀ addr, addr ∈ final.allocated ↔
        addr ∈ s.allocated ∧ ∀ index ∈ indices, s.threads index ≠ some addr := by
  induction indices generalizing s with
  | nil => exact ⟨s, rfl, by simp⟩
  | cons index rest ih =>
      obtain ⟨addr, allocated, isAddr⟩ := slots index List.mem_cons_self
      obtain ⟨notAgain, restDifferent⟩ := List.nodup_cons.mp different
      have elsewhere : ∀ other ∈ rest, s.threads other ≠ some addr := by
        intro other member same
        have isIndex := distinct other (List.mem_cons_of_mem _ member) index List.mem_cons_self
          (same.trans isAddr.symm)
        rw [isIndex] at member
        exact notAgain member
      obtain ⟨final, released, remains⟩ := ih (s := { s with allocated := s.allocated.erase addr })
        restDifferent (once.erase addr) (by
          intro other member
          obtain ⟨slot, slotAllocated, isSlot⟩ := slots other (List.mem_cons_of_mem _ member)
          have notAddr : slot ≠ addr := by
            intro same
            subst same
            exact elsewhere other member isSlot
          exact ⟨slot, (List.mem_erase_of_ne notAddr).mpr slotAllocated, isSlot⟩) (by
          intro first firstIn second secondIn
          exact distinct first (List.mem_cons_of_mem _ firstIn) second
            (List.mem_cons_of_mem _ secondIn))
      refine ⟨final, ?_, ?_⟩
      · rw [List.foldlM_cons, release_slot isAddr allocated]
        exact released
      · intro other
        rw [remains other, once.mem_erase_iff, List.forall_mem_cons, isAddr]
        constructor
        · intro assumed
          obtain ⟨⟨notAddr, still⟩, others⟩ := assumed
          exact ⟨still, fun same => notAddr (Option.some.inj same).symm, others⟩
        · intro assumed
          obtain ⟨still, notAddr, others⟩ := assumed
          exact ⟨⟨fun same => notAddr (congrArg some same.symm), still⟩, others⟩

theorem Owned.destroyed {mainThread : Addr} (owned : Owned mainThread s) :
    ∃ final, s.schedulerDestroy = some final ∧ final.allocated = [] := by
  have slots : List.range' 0 s.threadCount = 0 :: List.range' 1 (s.threadCount - 1) := by
    obtain ⟨positive, _⟩ := owned.count
    obtain ⟨rest, isCount⟩ := Nat.exists_eq_succ_of_ne_zero (Nat.ne_of_gt positive)
    rw [isCount, List.range'_succ, Nat.succ_sub_one]
  have inTable : ∀ index, index ∈ List.range' 0 s.threadCount ↔ index < s.threadCount := by
    intro index
    rw [List.mem_range'_1]
    omega
  obtain ⟨final, released, remains⟩ := release_slots (List.range' 0 s.threadCount)
    List.nodup_range' owned.once
    (fun index member => owned.slots index ((inTable index).mp member))
    (fun first firstIn second secondIn =>
      owned.distinct first ((inTable first).mp firstIn) second ((inTable second).mp secondIn))
  refine ⟨final, ?_, List.eq_nil_iff_forall_not_mem.mpr ?_⟩
  · rw [slots, List.foldlM_cons] at released
    exact released
  · intro addr left
    obtain ⟨allocated, noSlot⟩ := (remains addr).mp left
    obtain ⟨index, registered, isAddr⟩ := owned.known addr allocated
    exact noSlot index ((inTable index).mpr registered) isAddr

end Release

theorem Owned.accounted {mainThread : Addr} {c : Caller Ctx Routine Arg Event Input}
    (owned : Owned mainThread c.sched) : Accounted mainThread c := by
  refine ⟨⟨owned.count.2.le, ?_⟩, owned.main, ?_, owned.once, owned.destroyed⟩
  · intro index outside
    exact owned.unused index (owned.count.2.le.trans outside)
  · intro region
    constructor
    · intro assumed
      obtain ⟨allocated, notMain⟩ := assumed
      obtain ⟨index, registered, isRegion⟩ := owned.known region allocated
      refine ⟨index, Nat.pos_of_ne_zero ?_, registered, isRegion⟩
      intro same
      subst same
      rw [owned.main, Option.some.injEq] at isRegion
      exact notMain isRegion.symm
    · intro assumed
      obtain ⟨index, positive, registered, isRegion⟩ := assumed
      obtain ⟨addr, allocated, isAddr⟩ := owned.slots index registered
      rw [isAddr, Option.some.injEq] at isRegion
      subst isRegion
      refine ⟨allocated, ?_⟩
      intro same
      subst same
      have isMain := owned.distinct index registered 0 owned.count.1 (isAddr.trans owned.main.symm)
      omega

theorem start_owned (mainThread : Addr) (main : Ctx) :
    Owned mainThread (schedulerInit mainThread main : State Ctx Routine Arg Event Input) := by
  have only : ∀ index < 1, index = 0 := fun index below => Nat.lt_one_iff.mp below
  refine ⟨⟨Nat.zero_lt_one, show 1 < maxThreads by decide⟩, ?_, ?_, ?_, ?_, ?_, ?_⟩
  · simp [schedulerInit]
  · intro index registered
    rw [only index registered]
    exact ⟨mainThread, by simp [schedulerInit], by simp [schedulerInit]⟩
  · intro index (above : 1 ≤ index)
    have notMain : index ≠ 0 := by omega
    simp [schedulerInit, Function.update_of_ne notMain]
  · intro first firstIn second secondIn _
    rw [only first firstIn, only second secondIn]
  · intro addr allocated
    have isMain : addr = mainThread := by simpa [schedulerInit] using allocated
    exact ⟨0, Nat.zero_lt_one, by simp [schedulerInit, isMain]⟩
  · simp [schedulerInit]

/-! ## Runs -/

section Runs

variable (program : Program Ctx Routine Arg Event Input) (mainThread : Addr)

/-- The region of a complete call goes into the next slot. -/
theorem Owned.register {s next : State Ctx Routine Arg Event Input} {region : Addr}
    (owned : Owned mainThread s) (fresh : region ∉ s.allocated)
    (room : s.threadCount < maxThreads - 1) (allocated : next.allocated = region :: s.allocated)
    (threads : next.threads = Function.update s.threads s.threadCount (some region))
    (threadCount : next.threadCount = s.threadCount + 1) : Owned mainThread next := by
  have old : ∀ index < s.threadCount, next.threads index = s.threads index := by
    intro index registered
    rw [threads, Function.update_of_ne (Nat.ne_of_lt registered)]
  have new : next.threads s.threadCount = some region := by
    rw [threads, Function.update_self]
  have split : ∀ index < next.threadCount, index < s.threadCount ∨ index = s.threadCount := by
    intro index registered
    omega
  have notOld : ∀ index < s.threadCount, s.threads index ≠ some region := by
    intro index registered same
    obtain ⟨addr, isAllocated, isAddr⟩ := owned.slots index registered
    rw [isAddr, Option.some.injEq] at same
    rw [same] at isAllocated
    exact fresh isAllocated
  refine ⟨⟨by omega, by rw [threadCount]; exact Nat.add_lt_of_lt_sub room⟩, ?_, ?_, ?_, ?_, ?_, ?_⟩
  · rw [old 0 owned.count.1]
    exact owned.main
  · intro index registered
    rw [allocated]
    rcases split index registered with below | rfl
    · obtain ⟨addr, isAllocated, isAddr⟩ := owned.slots index below
      exact ⟨addr, List.mem_cons_of_mem _ isAllocated, (old index below).trans isAddr⟩
    · exact ⟨region, List.mem_cons_self, new⟩
  · intro index outside
    rw [threads, Function.update_of_ne (by omega)]
    exact owned.unused index (by omega)
  · intro first firstIn second secondIn same
    rcases split first firstIn with firstOld | rfl
    · rcases split second secondIn with secondOld | rfl
      · rw [old first firstOld, old second secondOld] at same
        exact owned.distinct first firstOld second secondOld same
      · rw [old first firstOld, new] at same
        exact absurd same (notOld first firstOld)
    · rcases split second secondIn with secondOld | rfl
      · rw [old second secondOld, new] at same
        exact absurd same.symm (notOld second secondOld)
      · rfl
  · intro addr isAllocated
    rw [allocated] at isAllocated
    rcases List.mem_cons.mp isAllocated with rfl | before
    · exact ⟨s.threadCount, by omega, new⟩
    · obtain ⟨index, registered, isAddr⟩ := owned.known addr before
      exact ⟨index, by omega, (old index registered).trans isAddr⟩
  · rw [allocated]
    exact List.nodup_cons.mpr ⟨fresh, owned.once⟩

theorem owned_create {c : Caller Ctx Routine Arg Event Input} {call : Creation Routine Arg}
    (owned : Owned mainThread c.sched) (completes : Completes c call) :
    Owned mainThread (c.create program call).2.sched := by
  cases isRegion : c.sched.mapped call with
  | none =>
      rw [create_no_region program isRegion]
      exact owned
  | some region =>
      have complete := completes region isRegion
      obtain ⟨_, allocated, threads, threadCount⟩ :=
        create_completes program isRegion complete
      exact owned.register mainThread (mapped_fresh isRegion) complete.2 allocated threads threadCount

/-- A region that a failed call leaves is in no slot of the table. -/
theorem completes_of_accounted {c : Caller Ctx Routine Arg Event Input}
    {call : Creation Routine Arg} (owned : Owned mainThread c.sched)
    (accounted : Accounted mainThread (c.create program call).2) : Completes c call := by
  intro region isRegion
  by_contra incomplete
  obtain ⟨heap, created⟩ := create_leaks program isRegion incomplete
  rw [created] at accounted
  have fresh := mapped_fresh isRegion
  have notMain : region ≠ mainThread := by
    intro same
    subst same
    obtain ⟨addr, allocated, isAddr⟩ := owned.slots 0 owned.count.1
    rw [owned.main, Option.some.injEq] at isAddr
    rw [← isAddr] at allocated
    exact fresh allocated
  obtain ⟨index, _, registered, isSlot⟩ :=
    (accounted.mapped region).mp ⟨List.mem_cons_self, notMain⟩
  obtain ⟨addr, allocated, isAddr⟩ := owned.slots index registered
  rw [isAddr, Option.some.injEq] at isSlot
  rw [isSlot] at allocated
  exact fresh allocated

variable (main : Ctx) (handles : Nat → Option Addr)

/-- No call of a run fails halfway, and everything is accounted for, exactly
when every call of the run that gets a region completes. -/
theorem creation_accounted_iff (calls : List (Creation Routine Arg)) :
    ((creations program mainThread main handles).Meets (Atomic program)
          ⟨schedulerInit mainThread main, handles⟩ calls ∧
        (creations program mainThread main handles).Always (Accounted mainThread)
          ⟨schedulerInit mainThread main, handles⟩ calls) ↔
      (creations program mainThread main handles).Meets Completes
        ⟨schedulerInit mainThread main, handles⟩ calls := by
  have everyCall : (creations program mainThread main handles).Meets (Atomic program)
        ⟨schedulerInit mainThread main, handles⟩ calls ↔
      (creations program mainThread main handles).Meets Completes
        ⟨schedulerInit mainThread main, handles⟩ calls :=
    System.meets_congr _ _ (fun _ => True) (fun _ _ _ _ _ => trivial)
      (fun _ _ _ => atomic_iff program) _ calls trivial
  have everyState := System.always_iff_meets (S := creations program mainThread main handles)
    Completes (fun c => Owned mainThread c.sched) (Accounted mainThread)
    (fun _ owned => owned.accounted)
    (by
      rintro c call next owned completes ⟨⟩
      exact owned_create program mainThread owned completes)
    (by
      rintro c call next owned ⟨⟩ accounted
      exact completes_of_accounted program mainThread owned accounted)
    ⟨schedulerInit mainThread main, handles⟩ calls (start_owned mainThread main)
  rw [everyCall, everyState]
  exact and_self_iff

end Runs

/-! ## A full table -/

def idle : Program Unit Unit Unit Unit Unit where
  enter _ _ := ()
  op _ := .ret

/-- Fifteen threads besides main, each in a region of its own. -/
def fifteen : List (Creation Unit Unit) :=
  (List.range 15).map fun index => ⟨index, (), (), some (index + 2), false⟩

set_option maxRecDepth 4000 in
/-- The last of them finds fourteen others in the table, and its region stays
mapped. -/
theorem full_table_leaks : ∃ final,
    (creations idle 1 () fun _ => none).run ⟨schedulerInit 1 (), fun _ => none⟩ fifteen = some final ∧
      ¬ Accounted 1 final := by
  have ran : ∃ final, (creations idle 1 () fun _ => none).run
      ⟨schedulerInit 1 (), fun _ => none⟩ fifteen = some final ∧
        final.sched.threadCount = 15 ∧ 16 ∈ final.sched.allocated ∧
        ∀ index < 15, final.sched.threads index ≠ some 16 :=
    ⟨_, rfl, rfl, by decide, by decide⟩
  obtain ⟨final, ran, count, allocated, notInTable⟩ := ran
  refine ⟨final, ran, ?_⟩
  intro accounted
  obtain ⟨index, _, registered, isSlot⟩ := (accounted.mapped 16).mp ⟨allocated, by decide⟩
  rw [count] at registered
  exact notInTable index registered isSlot

end OsLabs.Uthread
