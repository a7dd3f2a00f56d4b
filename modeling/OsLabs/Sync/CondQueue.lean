import OsLabs.Lib.Counting
import OsLabs.Sync.QueueRefinement
import OsLabs.Sync.Sections

/-!
# Safety of the condition-variable queue

What holds of the queue between two passes: it is the buffer that the settled
calls filled and emptied, and its attempts exceed its successes by the calls
that wait.  A call that waits is counted from the pass that found it blocked to
the pass that serves it.
-/

set_option autoImplicit false

namespace OsLabs.Sync

open OsLabs.Counting OsLabs.Fifo OsLabs.Transition

variable {n : Nat}

def Call.stalls (condition : Condition) (call : Call) : Bool := call.waitsFor = some condition

/-- Inside `pthread_cond_wait` for this condition. -/
def Thread.inWait (condition : Condition) : Thread → Bool
  | .sleeping call | .woken call => call.stalls condition
  | _ => false

/-- From the pass that found the call blocked to the end of the pass that
serves it. -/
def Thread.stalled (condition : Condition) : Thread → Bool
  | .inside call waited _ => waited && call.stalls condition
  | .waiting call | .sleeping call | .woken call => call.stalls condition
  | _ => false

namespace Queue

/-- Attempts without success. -/
def unserved (q : Queue) : Condition → Int
  | .notFull => q.addAttempts - q.addCount
  | .notEmpty => q.getAttempts - q.getCount

/-- How many calls that wait for the condition could be served. -/
def supply (q : Queue) : Condition → Int
  | .notFull => q.maxCount - q.count
  | .notEmpty => q.count

end Queue

def Outcome.isBlocked : Outcome → Bool
  | .blocked => true
  | .done _ => false

/-- A pass on a queue that holds a buffer's contents. -/
theorem pass_cases {capacity : Nat} {base next : Queue} {addrs : List Addr}
    {buffer : Buffer Int capacity} {call : Call} {waited : Bool} {block : Block}
    {outcome : Outcome} (holds : base.Holds addrs buffer)
    (ran : call.pass waited block base = .ok (outcome, next)) :
    ∃ nextAddrs, Attempts (call.counted waited base) addrs call outcome next nextAddrs ∧
      next.Shape nextAddrs := by
  rw [pass_eq_attempt holds.shape holds.bounded] at ran
  rcases attempt_spec (holds.shape.counted_call waited call) call block with
    ⟨_, _, _, _, failed⟩ | ⟨otherOutcome, other, nextAddrs, succeeded, attempts, shape⟩
  · rw [failed] at ran
    cases ran
  · rw [succeeded] at ran
    cases ran
    exact ⟨nextAddrs, attempts, shape⟩

theorem pass_fault {capacity : Nat} {base : Queue} {addrs : List Addr}
    {buffer : Buffer Int capacity} {call : Call} {waited : Bool} {block : Block} {fault : Fault}
    (holds : base.Holds addrs buffer) (ran : call.pass waited block base = .error fault) :
    fault = .outOfMemory := by
  rw [pass_eq_attempt holds.shape holds.bounded] at ran
  rcases attempt_spec (holds.shape.counted_call waited call) call block with
    ⟨_, _, _, _, failed⟩ | ⟨_, _, _, succeeded, _, _⟩
  · rw [failed] at ran
    exact (Except.error.inj ran).symm
  · rw [succeeded] at ran
    cases ran

/-- A blocked pass adds an attempt unless it is a later one of the same call; a
pass that serves a call that has waited takes one off. -/
theorem attempts_unserved {base next : Queue} {addrs nextAddrs : List Addr} {call : Call}
    {waited : Bool} {outcome : Outcome}
    (attempts : Attempts (call.counted waited base) addrs call outcome next nextAddrs)
    (condition : Condition) :
    next.unserved condition + (waited && call.stalls condition).toNat =
      base.unserved condition + (outcome.isBlocked && call.stalls condition).toNat := by
  cases attempts <;> cases waited <;> cases condition <;>
    simp [Call.counted, Queue.unserved, Call.stalls, Call.waitsFor, Outcome.isBlocked] <;> omega

namespace State

/-- The settled calls as requests to a buffer, in order. -/
def log (s : State n) : List (Request Int × Answer Int) :=
  s.completed.filterMap fun record => event record.2

end State

/-- The values that `queue_add` has appended, and those that successful
`queue_get` calls return, both in the order of the queue operations. -/
def State.appended (s : State n) : List Int := accepted s.log

def State.removed (s : State n) : List Int := taken s.log

structure SafeCond (s : State n) : Prop where
  onlyMemory : ∀ fault, s.ended = some fault → fault = .outOfMemory
  appendsWithRoom : ∀ tid call waited point, s.thread tid = .inside call waited point →
    point.appends = true → point.change = 0 → s.queue.count < s.queue.maxCount
  removesSome : ∀ tid call waited point, s.thread tid = .inside call waited point →
    point.removes = true → point.change = 0 → 0 < s.queue.count
  inOrder : s.removed <+: s.appended
  answered : s.Answered
  waiting : s.lock = .mutex none → ∀ condition,
    s.queue.unserved condition = count (Thread.inWait condition) s.thread

/-! ## The invariant -/

structure CondInv (maxCount : Nat) (s : State n) : Prop where
  sections : Sections .cond s
  answered : s.Answered
  onlyMemory : ∀ fault, s.ended = some fault → fault = .outOfMemory
  fifo : ∃ (addrs : List Addr) (buffer : Buffer Int maxCount), s.base.Holds addrs buffer ∧
    Buffer.empty.Serves s.log buffer
  balance : ∀ condition, s.base.unserved condition = count (Thread.stalled condition) s.thread

section Steps

variable {maxCount : Nat} {s next : State n} {tid : Fin n} {thread : Thread}

/-- A step that ends no pass. -/
theorem CondInv.moves (inv : CondInv maxCount s) (sections : Sections .cond next)
    (answered : next.Answered) (isNext : next.thread = Function.update s.thread tid thread)
    (sameEnded : next.ended = s.ended) (sameBase : next.base = s.base)
    (sameCompleted : next.completed = s.completed)
    (stalled : ∀ condition, thread.stalled condition = (s.thread tid).stalled condition) :
    CondInv maxCount next := by
  refine ⟨sections, answered, ?_, ?_, ?_⟩
  · intro fault ended
    rw [sameEnded] at ended
    exact inv.onlyMemory fault ended
  · have fifo := inv.fifo
    rwa [State.log, ← sameBase, ← sameCompleted] at fifo
  · intro condition
    rw [sameBase, isNext, count_update_same (stalled condition)]
    exact inv.balance condition

theorem CondInv.underway {call : Call} {waited : Bool} {point : Point}
    (inv : CondInv maxCount s) (here : s.thread tid = .inside call waited point) :
    Underway call waited s.base point s.queue := by
  obtain ⟨holder, held⟩ := inv.sections
  exact (held.at_holder here rfl).2

/-- The balance after a pass of a call that was here. -/
theorem CondInv.passed {call : Call} {waited : Bool} {point : Point} {outcome : Outcome}
    {queue : Queue} {addrs nextAddrs : List Addr} (inv : CondInv maxCount s)
    (here : s.thread tid = .inside call waited point)
    (attempts : Attempts (call.counted waited s.base) addrs call outcome queue nextAddrs)
    (stalled : ∀ condition, thread.stalled condition =
      (outcome.isBlocked && call.stalls condition)) (condition : Condition) :
    queue.unserved condition =
      count (Thread.stalled condition) (Function.update s.thread tid thread) := by
  have moved := count_update (Thread.stalled condition) s.thread tid thread
  have counted := attempts_unserved attempts condition
  have before := inv.balance condition
  have wasHere : (s.thread tid).stalled condition = (waited && call.stalls condition) := by
    rw [here]
    rfl
  rw [stalled condition, wasHere] at moved
  omega

end Steps

theorem condInv_step {maxCount : Nat} {s next : State n} {action : Action n}
    (inv : CondInv maxCount s) (stepped : threadStep .cond s action = some next) :
    CondInv maxCount next := by
  have sections := step_sections inv.sections stepped
  obtain ⟨running, move⟩ := threadStep_move stepped
  have answered := move_answered inv.answered move
  cases move with
  | call here | acquire here granted | reacquire here granted | wait here | wake here
  | release here | return_ here | signalNobody here nobody =>
      refine inv.moves sections answered rfl rfl rfl rfl fun condition => ?_
      rw [here]
      rfl
  | fault here ran =>
      obtain ⟨chosen, failed⟩ := (inv.underway here).fault ran
      obtain ⟨addrs, buffer, holds, serves⟩ := inv.fifo
      refine ⟨sections, answered, ?_, ⟨addrs, buffer, holds, serves⟩, inv.balance⟩
      intro fault ended
      cases ended
      exact pass_fault holds failed
  | goto here ran =>
      refine inv.moves sections answered rfl rfl rfl rfl fun condition => ?_
      rw [here]
      rfl
  | @blocks tid block call waited point queue waits here ran =>
      obtain ⟨chosen, passed⟩ := (inv.underway here).blocked ran
      obtain ⟨addrs, buffer, holds, serves⟩ := inv.fifo
      obtain ⟨nextAddrs, attempts, shape⟩ := pass_cases holds passed
      refine ⟨sections, answered, inv.onlyMemory, ?_, inv.passed here attempts fun _ => rfl⟩
      have counted := holds.counted waited call
      refine ⟨addrs, buffer, ?_, serves⟩
      cases attempts <;> exact counted
  | gives tries here ran => cases tries
  | @done tid block call waited point queue ret here ran =>
      obtain ⟨chosen, passed⟩ := (inv.underway here).done ran
      obtain ⟨addrs, buffer, holds, serves⟩ := inv.fifo
      obtain ⟨nextAddrs, attempts, shape⟩ := pass_cases holds passed
      refine ⟨sections, answered, inv.onlyMemory, ?_, inv.passed here attempts fun condition => ?_⟩
      · obtain ⟨after, nextHolds, more⟩ := attempt_serves (holds.counted waited call) attempts shape
        refine ⟨nextAddrs, after, nextHolds, ?_⟩
        show Buffer.empty.Serves
          ((s.completed ++ [(tid, call, ret)]).filterMap fun record => event record.2) after
        rw [List.filterMap_append]
        exact serves.append more
      · exact afterDone_elim (P := fun thread => thread.stalled condition = false) rfl rfl .cond
  | @signal tid other call sleeper ret here asleep waits =>
      have different : tid ≠ other := by
        intro same
        subst same
        rw [asleep] at here
        cases here
      refine ⟨sections, answered, inv.onlyMemory, inv.fifo, fun condition => ?_⟩
      have woken : count (Thread.stalled condition)
          (Function.update s.thread other (.woken sleeper)) =
          count (Thread.stalled condition) s.thread :=
        count_update_same (by rw [asleep]; rfl)
      have released : count (Thread.stalled condition)
          (Function.update (Function.update s.thread other (.woken sleeper)) tid
            (.releasing call ret)) =
          count (Thread.stalled condition)
            (Function.update s.thread other (.woken sleeper)) := by
        apply count_update_same
        rw [Function.update_of_ne different, here]
        rfl
      show s.base.unserved condition = _
      rw [inv.balance condition, ← woken, ← released]
      rfl

theorem start_condInv (n maxCount : Nat) : CondInv maxCount (State.start .cond n maxCount) where
  sections := start_sections .cond n maxCount
  answered _ := rfl
  onlyMemory fault ended := by cases ended
  fifo := ⟨[], Buffer.empty, (Queue.represents_init maxCount).toHolds, rfl⟩
  balance condition := by
    have nobody : count (Thread.stalled condition) (fun _ : Fin n => Thread.idle) = 0 :=
      count_eq_zero_iff.mpr fun _ => rfl
    rw [State.start, nobody]
    cases condition <;> rfl

theorem CondInv.safe {maxCount : Nat} {s : State n} (inv : CondInv maxCount s) : SafeCond s := by
  obtain ⟨addrs, buffer, holds, serves⟩ := inv.fifo
  refine ⟨inv.onlyMemory, ?_, ?_, taken_initial serves, inv.answered, ?_⟩
  · intro tid call waited point here appends unchanged
    have underway := inv.underway here
    have room := underway.room appends
    have count := underway.count
    have limit := underway.limit
    have bounded := holds.bounded
    omega
  · intro tid call waited point here removes unchanged
    have underway := inv.underway here
    have some := underway.some removes
    have count := underway.count
    have counted := holds.count_eq
    omega
  · intro free condition
    obtain ⟨holder, held⟩ := inv.sections
    have noHolder : holder = none := by
      have isFree := held.lock
      rw [free] at isFree
      exact (Lock.mutex.inj isFree).symm
    subst noHolder
    rw [held.settled rfl, inv.balance condition]
    refine congrArg Nat.cast (count_congr fun tid => ?_)
    have notOwner := held.owners.not_owns tid
    revert notOwner
    cases s.thread tid <;> simp [Thread.owns, Thread.stalled, Thread.inWait]

/-- Every state of every run of the condition-variable queue. -/
theorem cond_queue_safe (n maxCount : Nat) (actions : List (Action n)) :
    (sharedQueue .cond n maxCount).Always SafeCond (State.start .cond n maxCount) actions :=
  System.always_of_invariant (CondInv maxCount) (start_condInv n maxCount)
    (fun _ _ _ inv stepped => condInv_step inv stepped) (fun _ inv => inv.safe) actions

end OsLabs.Sync
