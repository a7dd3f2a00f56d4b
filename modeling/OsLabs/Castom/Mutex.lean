import OsLabs.Lib.GuardedCounter
import OsLabs.Lib.Transition

/-!
# The hand-made mutex

`mutex_lock` and `mutex_unlock` of `mysync.c`, one atomic operation a step, and
threads that call them in any order and increment a shared counter after each
`mutex_lock`.  The futex word is the flag with its padding bytes, which are 0,
so it equals the 0 that `FUTEX_WAIT` expects when the flag is clear.
-/

set_option autoImplicit false

namespace OsLabs.Castom

open OsLabs.Counting OsLabs.Exclusive OsLabs.Transition

inductive Call where
  | lock
  | unlock
  deriving DecidableEq

/-- Where a thread is.  `holds` records that it has locked the mutex and not
unlocked it since; the program does not look at it. -/
inductive Pc where
  | ready (holds : Bool)
  | testAndSet (holds : Bool)
  | futexWait (holds : Bool)
  | asleep (holds : Bool)
  | writeTid
  | load
  | store (value : Int)
  | readTid (holds : Bool)
  | clearTid
  | clearFlag
  | futexWake
  deriving DecidableEq

namespace Pc

/-- Between a successful test-and-set and the matching clear. -/
def owns : Pc → Bool
  | .ready holds | .testAndSet holds | .futexWait holds | .asleep holds | .readTid holds => holds
  | .writeTid | .load | .store _ | .clearTid | .clearFlag => true
  | .futexWake => false

/-- The owner has not written `tid` yet, or cleared it already. -/
def untold : Pc → Bool
  | .writeTid | .clearFlag => true
  | _ => false

/-- The owner has incremented the counter. -/
def stored : Pc → Bool
  | .ready holds | .testAndSet holds | .futexWait holds | .asleep holds | .readTid holds => holds
  | .clearTid | .clearFlag => true
  | _ => false

/-- What the thread has loaded and is about to store, one more. -/
def loaded : Pc → Option Int
  | .store value => some value
  | _ => none

def isAsleep : Pc → Bool
  | .asleep _ => true
  | _ => false

end Pc

/-- What `gettid` returns. -/
structure Tids (n : Nat) where
  tid : Fin n → Int
  positive : ∀ thread, 0 < tid thread
  distinct : Function.Injective tid

/-- `mutex_t`, the counter and the threads, each with the calls it has still to
make.  `completed` counts the critical sections that have been left. -/
structure State (n : Nat) where
  lock : Bool
  tid : Int
  sharedCounter : Int
  pc : Fin n → Pc
  todo : Fin n → List Call
  completed : Nat
  aborted : Bool

/-- `err` is a futex call that fails, not with `EAGAIN`; `woken` is the thread
that `FUTEX_WAKE` wakes. -/
structure Action (n : Nat) where
  thread : Fin n
  err : Bool
  woken : Option (Fin n)

variable {n : Nat}

namespace State

def goto (s : State n) (thread : Fin n) (pc : Pc) : State n :=
  { s with pc := Function.update s.pc thread pc }

def abort (s : State n) : State n := { s with aborted := true }

end State

def Call.entry (holds : Bool) : Call → Pc
  | .lock => .testAndSet holds
  | .unlock => .readTid holds

/-- The thread begins its next call. -/
def callStep (s : State n) (thread : Fin n) (holds : Bool) : Option (State n) :=
  match s.todo thread with
  | [] => none
  | call :: rest =>
      some { s.goto thread (call.entry holds) with todo := Function.update s.todo thread rest }

/-- `FUTEX_WAKE` of one thread, if there is one asleep. -/
def wakeStep (s : State n) (thread : Fin n) (woken : Option (Fin n)) : Option (State n) :=
  match woken with
  | some other =>
      match s.pc other with
      | .asleep holds => some ((s.goto other (.testAndSet holds)).goto thread (.ready false))
      | _ => none
  | none =>
      if ∀ other, (s.pc other).isAsleep = false then some (s.goto thread (.ready false)) else none

def step (tids : Tids n) (s : State n) (action : Action n) : Option (State n) :=
  let thread := action.thread
  if s.aborted then none
  else
    match s.pc thread with
    | .ready holds => callStep s thread holds
    | .testAndSet holds =>
        if s.lock then some (s.goto thread (.futexWait holds))
        else some { s.goto thread .writeTid with lock := true }
    | .futexWait holds =>
        if action.err then some s.abort
        else if s.lock then some (s.goto thread (.testAndSet holds))
        else some (s.goto thread (.asleep holds))
    | .asleep holds =>
        -- the call returns without a wake, or is interrupted
        if action.err then some s.abort else some (s.goto thread (.testAndSet holds))
    | .writeTid => some { s.goto thread .load with tid := tids.tid thread }
    | .load => some (s.goto thread (.store s.sharedCounter))
    | .store value => some { s.goto thread (.ready true) with sharedCounter := value + 1 }
    | .readTid _ =>
        if s.tid ≠ tids.tid thread then some s.abort else some (s.goto thread .clearTid)
    | .clearTid => some { s.goto thread .clearFlag with tid := 0 }
    | .clearFlag =>
        some { s.goto thread .futexWake with lock := false, completed := s.completed + 1 }
    | .futexWake => if action.err then some s.abort else wakeStep s thread action.woken

/-- After `mutex_init`, with what each thread is going to call. -/
def State.start (script : Fin n → List Call) : State n where
  lock := false
  tid := 0
  sharedCounter := 0
  pc := fun _ => .ready false
  todo := script
  completed := 0
  aborted := false

def mutexThreads (tids : Tids n) (script : Fin n → List Call) : System (State n) (Action n) :=
  ⟨State.start script, step tids⟩

/-! ## What a step can do -/

inductive Move (tids : Tids n) (s : State n) (action : Action n) : State n → Prop where
  | calls {holds : Bool} {call : Call} {rest : List Call}
      (here : s.pc action.thread = .ready holds) (isNext : s.todo action.thread = call :: rest) :
      Move tids s action
        { s.goto action.thread (call.entry holds) with
          todo := Function.update s.todo action.thread rest }
  | busy {holds : Bool} (here : s.pc action.thread = .testAndSet holds)
      (taken : s.lock = true) : Move tids s action (s.goto action.thread (.futexWait holds))
  | takes {holds : Bool} (here : s.pc action.thread = .testAndSet holds)
      (free : s.lock = false) :
      Move tids s action { s.goto action.thread .writeTid with lock := true }
  | again {holds : Bool} (here : s.pc action.thread = .futexWait holds)
      (taken : s.lock = true) : Move tids s action (s.goto action.thread (.testAndSet holds))
  | sleeps {holds : Bool} (here : s.pc action.thread = .futexWait holds)
      (free : s.lock = false) : Move tids s action (s.goto action.thread (.asleep holds))
  | returns {holds : Bool} (here : s.pc action.thread = .asleep holds) :
      Move tids s action (s.goto action.thread (.testAndSet holds))
  | writesTid (here : s.pc action.thread = .writeTid) :
      Move tids s action { s.goto action.thread .load with tid := tids.tid action.thread }
  | loads (here : s.pc action.thread = .load) :
      Move tids s action (s.goto action.thread (.store s.sharedCounter))
  | stores {value : Int} (here : s.pc action.thread = .store value) :
      Move tids s action { s.goto action.thread (.ready true) with sharedCounter := value + 1 }
  | passes {holds : Bool} (here : s.pc action.thread = .readTid holds)
      (isOwn : s.tid = tids.tid action.thread) : Move tids s action (s.goto action.thread .clearTid)
  | clearsTid (here : s.pc action.thread = .clearTid) :
      Move tids s action { s.goto action.thread .clearFlag with tid := 0 }
  | clearsFlag (here : s.pc action.thread = .clearFlag) :
      Move tids s action
        { s.goto action.thread .futexWake with lock := false, completed := s.completed + 1 }
  | wakes {other : Fin n} {holds : Bool}
      (here : s.pc action.thread = .futexWake) (asleep : s.pc other = .asleep holds) :
      Move tids s action ((s.goto other (.testAndSet holds)).goto action.thread (.ready false))
  | wakesNobody (here : s.pc action.thread = .futexWake)
      (nobody : ∀ other, (s.pc other).isAsleep = false) :
      Move tids s action (s.goto action.thread (.ready false))
  | aborts : Move tids s action s.abort

theorem step_move {tids : Tids n} {s next : State n} {action : Action n}
    (stepped : step tids s action = some next) : Move tids s action next := by
  unfold step at stepped
  simp only at stepped
  split at stepped
  · cases stepped
  split at stepped
  · rename_i here
    unfold callStep at stepped
    split at stepped
    · cases stepped
    · rename_i isNext
      cases stepped
      exact .calls here isNext
  · rename_i here
    split at stepped
    · rename_i taken
      cases stepped
      exact .busy here taken
    · rename_i free
      cases stepped
      exact .takes here (by simpa using free)
  · rename_i here
    split at stepped
    · cases stepped
      exact .aborts
    · split at stepped
      · rename_i taken
        cases stepped
        exact .again here taken
      · rename_i free
        cases stepped
        exact .sleeps here (by simpa using free)
  · rename_i here
    split at stepped
    · cases stepped
      exact .aborts
    · cases stepped
      exact .returns here
  · rename_i here
    cases stepped
    exact .writesTid here
  · rename_i here
    cases stepped
    exact .loads here
  · rename_i here
    cases stepped
    exact .stores here
  · rename_i here
    split at stepped
    · cases stepped
      exact .aborts
    · rename_i isOwn
      cases stepped
      exact .passes here (by simpa using isOwn)
  · rename_i here
    cases stepped
    exact .clearsTid here
  · rename_i here
    cases stepped
    exact .clearsFlag here
  · rename_i here
    split at stepped
    · cases stepped
      exact .aborts
    · unfold wakeStep at stepped
      split at stepped
      · split at stepped
        · rename_i asleep
          cases stepped
          exact .wakes here asleep
        · cases stepped
      · split at stepped
        · rename_i nobody
          cases stepped
          exact .wakesNobody here nobody
        · cases stepped

/-! ## The holder -/

structure Held (tids : Tids n) (s : State n) (holder : Option (Fin n)) : Prop where
  guarded : Guarded Pc.owns Pc.stored Pc.loaded s.pc holder s.completed s.sharedCounter
  lock : s.lock = holder.isSome
  tid : s.tid = holder.elim 0 fun thread => if (s.pc thread).untold then 0 else tids.tid thread

theorem stored_owns (pc : Pc) (stored : pc.stored = true) : pc.owns = true := by
  cases pc <;> simp_all [Pc.stored, Pc.owns]

theorem loaded_owns (pc : Pc) (value : Int) (loaded : pc.loaded = some value) :
    pc.owns = true := by
  cases pc with
  | store => rfl
  | _ => cases loaded

section Held

variable {tids : Tids n} {s next : State n} {holder : Option (Fin n)} {thread : Fin n} {pc : Pc}

/-- A step that changes nothing but the place of a thread. -/
theorem Held.moves (held : Held tids s holder) (sameOwns : pc.owns = (s.pc thread).owns)
    (sameUntold : pc.untold = (s.pc thread).untold) (sameStored : pc.stored = (s.pc thread).stored)
    (notLoads : pc.loaded = none) : Held tids (s.goto thread pc) holder := by
  have same : ∀ other, (Function.update s.pc thread pc other).untold = (s.pc other).untold := by
    intro other
    by_cases here : other = thread
    · rw [here, Function.update_self, sameUntold]
    · rw [Function.update_of_ne here]
  refine ⟨held.guarded.moves sameOwns sameStored notLoads, held.lock, ?_⟩
  simp only [State.goto, same]
  exact held.tid

/-- A thread where the mutex is held is the holder, and knows `tid` and the
counter. -/
theorem Held.at_holder (held : Held tids s holder) (here : s.pc thread = pc)
    (owns : pc.owns = true) :
    holder = some thread ∧ s.tid = (if pc.untold then 0 else tids.tid thread) ∧
      s.sharedCounter = s.completed + (pc.stored.toNat : Nat) := by
  obtain ⟨rfl, counted⟩ := held.guarded.at_holder here owns
  subst here
  exact ⟨rfl, held.tid, counted⟩

/-- The holder goes on. -/
theorem Held.holds (held : Held tids s (some thread)) (owns : pc.owns = true)
    (isNext : next.pc = Function.update s.pc thread pc) (sameLock : next.lock = s.lock)
    (tid : next.tid = if pc.untold then 0 else tids.tid thread)
    (counter : next.sharedCounter = next.completed + (pc.stored.toNat : Nat))
    (loaded : ∀ value, pc.loaded = some value → value = next.sharedCounter) :
    Held tids next (some thread) := by
  refine ⟨?_, sameLock.trans held.lock, ?_⟩
  · rw [isNext]
    exact held.guarded.holds loaded_owns owns counter loaded
  · rw [Option.elim_some, isNext, Function.update_self]
    exact tid

/-- The check of `mutex_unlock` tells the holder from everybody else. -/
theorem Held.check {holds : Bool} (held : Held tids s holder)
    (here : s.pc thread = .readTid holds) : s.tid = tids.tid thread ↔ holds = true := by
  have positive := tids.positive thread
  constructor
  · intro isOwn
    rw [held.tid] at isOwn
    cases holder with
    | none =>
        rw [Option.elim_none] at isOwn
        omega
    | some other =>
        rw [Option.elim_some] at isOwn
        split at isOwn
        · omega
        · have isThread := tids.distinct isOwn
          have owns := (held.guarded.owner thread).mpr (by rw [isThread])
          rw [here] at owns
          exact owns
  · intro same
    subst same
    exact (held.at_holder here rfl).2.1

end Held

theorem move_held {tids : Tids n} {s next : State n} {action : Action n} {holder : Option (Fin n)}
    (held : Held tids s holder) (move : Move tids s action next) :
    ∃ holder, Held tids next holder := by
  cases move with
  | @calls holds call rest here isNext =>
      have moved : Held tids (s.goto action.thread (call.entry holds)) holder := by
        cases call with
        | lock | unlock =>
            exact held.moves (by rw [here]; rfl) (by rw [here]; rfl) (by rw [here]; rfl) rfl
      exact ⟨holder, moved.guarded, moved.lock, moved.tid⟩
  | busy here taken | again here taken | sleeps here free | returns here
  | wakesNobody here nobody =>
      exact ⟨holder, held.moves (by rw [here]; rfl) (by rw [here]; rfl) (by rw [here]; rfl) rfl⟩
  | takes here free =>
      have isNone : holder = none := by
        have isFree := held.lock
        rw [free] at isFree
        simpa using isFree.symm
      subst isNone
      refine ⟨_, held.guarded.takes rfl rfl rfl, rfl, ?_⟩
      simpa [State.goto, Pc.untold] using held.tid
  | writesTid here =>
      obtain ⟨rfl, -, counted⟩ := held.at_holder here rfl
      exact ⟨_, held.holds rfl rfl rfl rfl counted (by simp [Pc.loaded])⟩
  | loads here =>
      obtain ⟨rfl, isTid, counted⟩ := held.at_holder here rfl
      refine ⟨_, held.holds rfl rfl rfl isTid counted fun value isLoaded => ?_⟩
      exact (Option.some.inj isLoaded).symm
  | stores here =>
      obtain ⟨rfl, isTid, counted⟩ := held.at_holder here rfl
      have isCounter := held.guarded.loaded action.thread _ (by rw [here]; rfl)
      refine ⟨_, held.holds rfl rfl rfl isTid ?_ (by simp [Pc.loaded])⟩
      simp only [Pc.stored, Bool.toNat_false, Bool.toNat_true, State.goto] at counted ⊢
      omega
  | @passes holds here isOwn =>
      have isTrue := (held.check here).mp isOwn
      subst isTrue
      obtain ⟨rfl, isTid, counted⟩ := held.at_holder here rfl
      exact ⟨_, held.holds rfl rfl rfl isTid counted (by simp [Pc.loaded])⟩
  | clearsTid here =>
      obtain ⟨rfl, -, counted⟩ := held.at_holder here rfl
      exact ⟨_, held.holds rfl rfl rfl rfl counted (by simp [Pc.loaded])⟩
  | clearsFlag here =>
      obtain ⟨rfl, isTid, counted⟩ := held.at_holder here rfl
      exact ⟨none, held.guarded.gives rfl (by rw [here]; rfl) rfl, rfl, isTid⟩
  | @wakes other holds here asleep =>
      have woken : Held tids (s.goto other (.testAndSet holds)) holder :=
        held.moves (by rw [asleep]; rfl) (by rw [asleep]; rfl) (by rw [asleep]; rfl) rfl
      have different : action.thread ≠ other := by
        intro same
        rw [same, asleep] at here
        cases here
      have still : (s.goto other (.testAndSet holds)).pc action.thread = .futexWake := by
        simp [State.goto, Function.update_of_ne different, here]
      exact ⟨holder, woken.moves (by rw [still]; rfl) (by rw [still]; rfl) (by rw [still]; rfl) rfl⟩
  | aborts => exact ⟨holder, held.guarded, held.lock, held.tid⟩

theorem start_held (tids : Tids n) (script : Fin n → List Call) :
    Held tids (State.start script) none :=
  ⟨Guarded.start rfl rfl, rfl, rfl⟩

/-- One owner at a time, known by `mutex_unlock`, and no lost increment. -/
structure Excluded (tids : Tids n) (s : State n) : Prop where
  one : ∀ first second, (s.pc first).owns = true → (s.pc second).owns = true → first = second
  check : ∀ action : Action n, ∀ holds, s.pc action.thread = .readTid holds → s.aborted = false →
    step tids s action =
      some (if holds = true then s.goto action.thread .clearTid else s.abort)
  counter : s.sharedCounter = s.completed + count Pc.stored s.pc
  settled : (∀ thread, (s.pc thread).owns = false) → s.sharedCounter = s.completed

theorem Held.excluded {tids : Tids n} {s : State n} {holder : Option (Fin n)}
    (held : Held tids s holder) : Excluded tids s := by
  refine ⟨fun _ _ => held.guarded.owner.unique, ?_, held.guarded.counter_eq_count stored_owns,
    fun nobody => (held.guarded.counter_eq_of_nobody nobody).2⟩
  intro action holds here running
  have isHolder := held.check here
  simp only [step, running, here]
  by_cases isOwn : s.tid = tids.tid action.thread
  · simp [isOwn, isHolder.mp isOwn]
  · have notHolds : ¬ holds = true := fun holds => isOwn (isHolder.mpr holds)
    simp [isOwn, notHolds]

/-- Every state of every run, whatever the threads call. -/
theorem mutex_excludes (tids : Tids n) (script : Fin n → List Call) (actions : List (Action n)) :
    (mutexThreads tids script).Always (Excluded tids) (State.start script) actions := by
  refine System.always_of_invariant (fun s => ∃ holder, Held tids s holder)
    ⟨none, start_held tids script⟩ ?_ ?_ actions
  · rintro s action next ⟨holder, held⟩ stepped
    exact move_held held (step_move stepped)
  · rintro s ⟨holder, held⟩
    exact held.excluded

end OsLabs.Castom
