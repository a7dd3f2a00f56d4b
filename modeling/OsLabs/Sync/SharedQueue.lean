import OsLabs.Lib.Transition
import OsLabs.Sync.Statements

/-!
# The queue shared by threads

The four variants of `lab2.2`: a mutex, a spinlock or a semaphore around the
calls of `lab2.1`, and a mutex with two condition variables where a call that
is blocked waits.  The first three copies of `queue.c` differ in their lock
operations only.  A step is one statement of one thread; which thread moves,
what `malloc` finds and whom a signal wakes is part of the action.
-/

set_option autoImplicit false

namespace OsLabs.Sync

open OsLabs.Transition

/-! ## Locks -/

inductive Primitive where
  | mutex
  | spinlock
  | sem
  deriving DecidableEq

/-- `trying` calls return 0 where the calls of `cond` wait. -/
inductive Variant where
  | trying (primitive : Primitive)
  | cond
  deriving DecidableEq

def Variant.primitive : Variant → Primitive
  | .trying primitive => primitive
  | .cond => .mutex

/-- `pthread_mutex_t`, `pthread_spinlock_t` or `sem_t`. -/
inductive Lock (n : Nat) where
  | mutex (owner : Option (Fin n))
  | spinlock (locked : Bool)
  | sem (value : Nat)
  deriving DecidableEq

def Primitive.init (n : Nat) : Primitive → Lock n
  | .mutex => .mutex none
  | .spinlock => .spinlock false
  | .sem => .sem 1

/-- The lock while this thread, or nobody, is between its acquire and its release. -/
def Primitive.heldBy {n : Nat} (holder : Option (Fin n)) : Primitive → Lock n
  | .mutex => .mutex holder
  | .spinlock => .spinlock holder.isSome
  | .sem => .sem (if holder.isSome then 0 else 1)

namespace Lock

variable {n : Nat}

/-- `pthread_mutex_lock`, `pthread_spin_lock` or `sem_wait`, unless it blocks. -/
def acquire (tid : Fin n) : Lock n → Option (Lock n)
  | .mutex none => some (.mutex (some tid))
  | .spinlock false => some (.spinlock true)
  | .sem (value + 1) => some (.sem value)
  | _ => none

def release : Lock n → Lock n
  | .mutex _ => .mutex none
  | .spinlock _ => .spinlock false
  | .sem value => .sem (value + 1)

theorem heldBy_none (primitive : Primitive) : primitive.heldBy none = primitive.init n := by
  cases primitive <;> rfl

theorem acquire_heldBy {primitive : Primitive} {holder : Option (Fin n)} {tid : Fin n}
    {lock : Lock n} (granted : (primitive.heldBy holder).acquire tid = some lock) :
    holder = none ∧ lock = primitive.heldBy (some tid) := by
  cases holder with
  | none => cases primitive <;> cases granted <;> exact ⟨rfl, rfl⟩
  | some other => cases primitive <;> cases granted

theorem release_heldBy (primitive : Primitive) (tid : Fin n) :
    (primitive.heldBy (some tid)).release = primitive.heldBy none := by
  cases primitive <;> rfl

end Lock

/-! ## Threads -/

inductive Condition where
  | notFull
  | notEmpty
  deriving DecidableEq

/-- The condition that a blocked call waits for. -/
def Call.waitsFor : Call → Option Condition
  | .add _ => some .notFull
  | .get _ => some .notEmpty
  | .printStats => none

/-- The condition that a call signals when it is done. -/
def Call.signals : Call → Option Condition
  | .add _ => some .notEmpty
  | .get _ => some .notFull
  | .printStats => none

/-- Where a thread is.  `inside` is between acquire and release, `waited` after
a wait; a thread that is `woken` asks for the mutex again. -/
inductive Thread where
  | idle
  | acquiring (call : Call)
  | inside (call : Call) (waited : Bool) (point : Point)
  | waiting (call : Call)
  | sleeping (call : Call)
  | woken (call : Call)
  | signalling (call : Call) (ret : Ret)
  | releasing (call : Call) (ret : Ret)
  | returning (call : Call) (ret : Ret)
  deriving DecidableEq

/-- The thread has the lock. -/
def Thread.owns : Thread → Bool
  | .inside _ _ _ | .waiting _ | .signalling _ _ | .releasing _ _ => true
  | _ => false

def Thread.sleepsOn (condition : Condition) : Thread → Bool
  | .sleeping call => call.waitsFor = some condition
  | _ => false

/-- The state of the process.  The last four fields are a record of the run: the
queue as the last pass left it, the calls in the order in which they acquired
the lock, the results in the order in which they were settled, and the number
of releases of each thread. -/
structure State (n : Nat) where
  queue : Queue
  lock : Lock n
  thread : Fin n → Thread
  ended : Option Fault
  returned : Fin n → List (Call × Ret)
  base : Queue
  acquired : List (Fin n × Call)
  completed : List (Fin n × Call × Ret)
  releases : Fin n → Nat

inductive Action (n : Nat) where
  | call (tid : Fin n) (call : Call)
  | acquire (tid : Fin n)
  | statement (tid : Fin n) (block : Block)
  | wait (tid : Fin n)
  | wake (tid : Fin n)
  | signal (tid : Fin n) (target : Option (Fin n))
  | release (tid : Fin n)
  | return_ (tid : Fin n)

def Action.actor {n : Nat} : Action n → Fin n
  | .call tid _ | .acquire tid | .statement tid _ | .wait tid | .wake tid | .signal tid _
  | .release tid | .return_ tid => tid

namespace State

variable {n : Nat}

def setThread (s : State n) (tid : Fin n) (thread : Thread) : State n :=
  { s with thread := Function.update s.thread tid thread }

/-- The pass of a call has left the queue as it is now. -/
def settled (s : State n) (queue : Queue) : State n := { s with queue := queue, base := queue }

def completes (s : State n) (tid : Fin n) (call : Call) (ret : Ret) : State n :=
  { s with completed := s.completed ++ [(tid, call, ret)] }

end State

/-- Where a call goes on when its pass has a result. -/
def Variant.afterDone (v : Variant) (call : Call) (ret : Ret) : Thread :=
  match v, call.signals with
  | .cond, some _ => .signalling call ret
  | _, _ => .releasing call ret

def stepStatement {n : Nat} (v : Variant) (s : State n) (tid : Fin n) (block : Block) :
    Option (State n) :=
  match s.thread tid with
  | .inside call waited point =>
      match statement block s.queue point with
      | .error fault => some { s with ended := some fault }
      | .ok (.goto next, queue) =>
          some { s.setThread tid (.inside call waited next) with queue := queue }
      | .ok (.blocked, queue) =>
          match v with
          | .cond => some ((s.settled queue).setThread tid (.waiting call))
          | .trying _ =>
              let ret := call.settle .blocked
              some (((s.settled queue).completes tid call ret).setThread tid (.releasing call ret))
      | .ok (.done ret, queue) =>
          some (((s.settled queue).completes tid call ret).setThread tid (v.afterDone call ret))
  | _ => none

/-- `pthread_cond_signal` wakes one sleeper if there is one; that it may wake
more is covered by `wake`. -/
def stepSignal {n : Nat} (s : State n) (tid : Fin n) (target : Option (Fin n)) :
    Option (State n) :=
  match s.thread tid, target with
  | .signalling call ret, some other =>
      match s.thread other with
      | .sleeping sleeper =>
          if sleeper.waitsFor = call.signals then
            some ((s.setThread other (.woken sleeper)).setThread tid (.releasing call ret))
          else none
      | _ => none
  | .signalling call ret, none =>
      if ∀ other condition, call.signals = some condition →
          (s.thread other).sleepsOn condition = false then
        some (s.setThread tid (.releasing call ret))
      else none
  | _, _ => none

def threadStep {n : Nat} (v : Variant) (s : State n) (action : Action n) : Option (State n) :=
  if s.ended.isSome then none
  else
    match action with
    | .call tid call =>
        match s.thread tid with
        | .idle => some (s.setThread tid (.acquiring call))
        | _ => none
    | .acquire tid =>
        match s.thread tid, s.lock.acquire tid with
        | .acquiring call, some lock =>
            some { s.setThread tid (.inside call false (call.entry false)) with
              lock := lock
              acquired := s.acquired ++ [(tid, call)] }
        | .woken call, some lock =>
            some { s.setThread tid (.inside call true (call.entry true)) with lock := lock }
        | _, _ => none
    | .statement tid block => stepStatement v s tid block
    | .wait tid =>
        match s.thread tid with
        | .waiting call => some { s.setThread tid (.sleeping call) with lock := s.lock.release }
        | _ => none
    | .wake tid =>
        match s.thread tid with
        | .sleeping call => some (s.setThread tid (.woken call))
        | _ => none
    | .signal tid target => stepSignal s tid target
    | .release tid =>
        match s.thread tid with
        | .releasing call ret =>
            some { s.setThread tid (.returning call ret) with
              lock := s.lock.release
              releases := Function.update s.releases tid (s.releases tid + 1) }
        | _ => none
    | .return_ tid =>
        match s.thread tid with
        | .returning call ret =>
            some { s.setThread tid .idle with
              returned := Function.update s.returned tid (s.returned tid ++ [(call, ret)]) }
        | _ => none

/-- After `queue_init`; all threads may call. -/
def State.start (v : Variant) (n maxCount : Nat) : State n where
  queue := queueInit maxCount
  lock := v.primitive.init n
  thread := fun _ => .idle
  ended := none
  returned := fun _ => []
  base := queueInit maxCount
  acquired := []
  completed := []
  releases := fun _ => 0

def sharedQueue (v : Variant) (n maxCount : Nat) : System (State n) (Action n) :=
  ⟨State.start v n maxCount, threadStep v⟩

end OsLabs.Sync
