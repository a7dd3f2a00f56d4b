import OsLabs.Sync.QueueRefinement
import OsLabs.Sync.Sections

/-!
# The locked queues are linearizable

For the mutex, the spinlock and the semaphore: whatever the interleaving, the
settled calls are a sequential run of the unlocked queue in the order in which
they acquired the lock, with the results that their threads return.
-/

set_option autoImplicit false

namespace OsLabs.Sync

open OsLabs.Transition

variable {n : Nat}

def Thread.isReturning : Thread → Bool
  | .returning _ _ => true
  | _ => false

def Thread.isInside : Thread → Bool
  | .inside _ _ _ => true
  | _ => false

/-- The points of a call that never waits. -/
def Thread.straight : Thread → Bool
  | .idle | .acquiring _ | .inside _ false _ | .releasing _ _ | .returning _ _ => true
  | _ => false

namespace State

/-- The calls that are settled, in the order of `completed`. -/
def settledCalls (s : State n) : List (Fin n × Call) := s.completed.map fun record =>
  (record.1, record.2.1)

def Inside (s : State n) (tid : Fin n) (call : Call) : Prop :=
  ∃ waited point, s.thread tid = .inside call waited point

/-- The settled calls acquired the lock first and in this order; a call in its
critical section was the last. -/
structure Ordered (s : State n) : Prop where
  pending : ∀ tid call, s.Inside tid call → s.acquired = s.settledCalls ++ [(tid, call)]
  quiet : (∀ tid call, ¬ s.Inside tid call) → s.acquired = s.settledCalls

/-- The settled calls, one after the other, on a queue without lock. -/
def Sequential (maxCount : Nat) (s : State n) : Prop :=
  ∃ blocks : List Block, blocks.length = s.completed.length ∧
    runCalls (queueInit maxCount) ((s.settledCalls.map Prod.snd).zip blocks) =
      .ok (s.completed.map fun record => record.2.2, s.base)

end State

structure Linearized (maxCount : Nat) (s : State n) : Prop where
  exclusive : ∀ first second, (s.thread first).owns = true → (s.thread second).owns = true →
    first = second
  acquires : ∀ tid, (s.acquired.filter fun pair => pair.1 = tid).length =
    s.releases tid + (s.thread tid).owns.toNat
  releases : ∀ tid, s.releases tid = (s.returned tid).length + (s.thread tid).isReturning.toNat
  onlyMemory : ∀ fault, s.ended = some fault → fault = .outOfMemory
  ordered : s.Ordered
  sequential : s.Sequential maxCount
  answered : s.Answered
  final : (∀ tid, (s.thread tid).owns = false) → s.queue = s.base

/-! ## The invariant -/

structure Linear (primitive : Primitive) (maxCount : Nat) (s : State n) : Prop where
  sections : Sections (.trying primitive) s
  straight : ∀ tid, (s.thread tid).straight = true
  onlyMemory : ∀ fault, s.ended = some fault → fault = .outOfMemory
  ordered : s.Ordered
  sequential : s.Sequential maxCount
  answered : s.Answered
  releases : ∀ tid, s.releases tid = (s.returned tid).length + (s.thread tid).isReturning.toNat

theorem State.Inside.owns {s : State n} {tid : Fin n} {call : Call} (inside : s.Inside tid call) :
    (s.thread tid).owns = true := by
  obtain ⟨waited, point, here⟩ := inside
  rw [here]
  rfl

/-- The settled calls and those that acquired, where no pass begins or ends. -/
theorem State.Ordered.congr {s next : State n} (ordered : s.Ordered)
    (sameAcquired : next.acquired = s.acquired) (sameCompleted : next.completed = s.completed)
    (sameInside : ∀ tid call, next.Inside tid call ↔ s.Inside tid call) : next.Ordered := by
  have sameCalls : next.settledCalls = s.settledCalls := by
    rw [State.settledCalls, State.settledCalls, sameCompleted]
  refine ⟨?_, ?_⟩
  · intro tid call inside
    rw [sameAcquired, sameCalls]
    exact ordered.pending tid call ((sameInside tid call).mp inside)
  · intro nobody
    rw [sameAcquired, sameCalls]
    exact ordered.quiet fun tid call inside => nobody tid call ((sameInside tid call).mpr inside)

/-- One thread changes its place, but not whether it is inside a call. -/
theorem inside_iff {s next : State n} {tid : Fin n} {thread : Thread}
    (isNext : next.thread = Function.update s.thread tid thread)
    (same : ∀ call, (∃ waited point, thread = .inside call waited point) ↔ s.Inside tid call)
    (other : Fin n) (call : Call) : next.Inside other call ↔ s.Inside other call := by
  by_cases here : other = tid
  · subst here
    simp only [State.Inside, isNext, Function.update_self]
    exact same call
  · simp only [State.Inside, isNext, Function.update_of_ne here]

theorem inside_false {s : State n} (tid : Fin n) (thread : Thread)
    (before : ∀ call waited point, s.thread tid ≠ .inside call waited point)
    (after : ∀ call waited point, thread ≠ .inside call waited point) (call : Call) :
    (∃ waited point, thread = .inside call waited point) ↔ s.Inside tid call := by
  constructor
  · intro assumed
    obtain ⟨waited, point, isInside⟩ := assumed
    exact absurd isInside (after call waited point)
  · intro assumed
    obtain ⟨waited, point, isInside⟩ := assumed
    exact absurd isInside (before call waited point)

theorem runCalls_snoc {q middle next : Queue} {calls : List (Call × Block)} {rets : List Ret}
    {call : Call} {block : Block} {ret : Ret} (ran : runCalls q calls = .ok (rets, middle))
    (last : call.run block middle = .ok (ret, next)) :
    runCalls q (calls ++ [(call, block)]) = .ok (rets ++ [ret], next) := by
  induction calls generalizing q rets with
  | nil =>
      cases ran
      simp only [List.nil_append, runCalls, last, bind, Except.bind]
  | cons first rest ih =>
      obtain ⟨firstCall, firstBlock⟩ := first
      simp only [runCalls] at ran
      obtain ⟨⟨firstRet, between⟩, firstRan, ran⟩ := bind_ok ran
      obtain ⟨⟨restRets, final⟩, restRan, ran⟩ := bind_ok ran
      cases ran
      simp only [List.cons_append, runCalls, firstRan, ih restRan, bind, Except.bind]

/-- A call that is settled extends the sequential run. -/
theorem State.Sequential.settle {maxCount : Nat} {s : State n} {tid : Fin n} {call : Call}
    {block : Block} {outcome : Outcome} {queue : Queue} (sequential : s.Sequential maxCount)
    (ran : call.pass false block s.base = .ok (outcome, queue)) :
    ((s.settled queue).completes tid call (call.settle outcome)).Sequential maxCount := by
  obtain ⟨blocks, sameLength, sofar⟩ := sequential
  refine ⟨blocks ++ [block], by simp [State.completes, State.settled, sameLength], ?_⟩
  have last : call.run block s.base = .ok (call.settle outcome, queue) := by
    rw [run_eq_pass, ran]
    rfl
  have extended := runCalls_snoc sofar last
  have zipped : (s.settledCalls.map Prod.snd).zip blocks ++ [(call, block)] =
      (s.settledCalls.map Prod.snd ++ [call]).zip (blocks ++ [block]) := by
    rw [List.zip_append (by simp [State.settledCalls, sameLength])]
    rfl
  rw [zipped] at extended
  simpa [State.settledCalls, State.completes, State.settled] using extended

section Steps

variable {primitive : Primitive} {maxCount : Nat} {s next : State n} {tid : Fin n}
  {thread : Thread}

/-- A step that settles nothing and begins no pass: a fact about the threads. -/
theorem Linear.moves (linear : Linear primitive maxCount s)
    (sections : Sections (.trying primitive) next)
    (isNext : next.thread = Function.update s.thread tid thread)
    (straight : thread.straight = true)
    (same : ∀ call, (∃ waited point, thread = .inside call waited point) ↔ s.Inside tid call)
    (sameEnded : next.ended = s.ended) (sameBase : next.base = s.base)
    (sameAcquired : next.acquired = s.acquired) (sameCompleted : next.completed = s.completed)
    (answered : next.Answered)
    (returnedElse : ∀ other, other ≠ tid → next.returned other = s.returned other)
    (releases : next.releases tid = (next.returned tid).length + thread.isReturning.toNat)
    (releasesElse : ∀ other, other ≠ tid → next.releases other = s.releases other) :
    Linear primitive maxCount next := by
  refine ⟨sections, ?_, ?_, ?_, ?_, answered, ?_⟩
  · intro other
    by_cases here : other = tid
    · rw [here, isNext, Function.update_self]
      exact straight
    · rw [isNext, Function.update_of_ne here]
      exact linear.straight other
  · intro fault ended
    rw [sameEnded] at ended
    exact linear.onlyMemory fault ended
  · exact linear.ordered.congr sameAcquired sameCompleted (inside_iff isNext same)
  · have sequential := linear.sequential
    rwa [State.Sequential, State.settledCalls, ← sameCompleted, ← sameBase] at sequential
  · intro other
    by_cases here : other = tid
    · subst here
      rw [isNext, Function.update_self]
      exact releases
    · rw [isNext, Function.update_of_ne here, returnedElse other here, releasesElse other here]
      exact linear.releases other

/-- The mutex is free, so nobody is inside, and the call is the next one in the
order of the acquisitions. -/
theorem Linear.acquires (linear : Linear primitive maxCount s) {call : Call} {lock : Lock n}
    (here : s.thread tid = .acquiring call) (granted : s.lock.acquire tid = some lock)
    (sections : Sections (.trying primitive)
      { s.setThread tid (.inside call false (call.entry false)) with
        lock := lock, acquired := s.acquired ++ [(tid, call)] })
    (answered : State.Answered
      { s.setThread tid (.inside call false (call.entry false)) with
        lock := lock, acquired := s.acquired ++ [(tid, call)] }) :
    Linear primitive maxCount
      { s.setThread tid (.inside call false (call.entry false)) with
        lock := lock, acquired := s.acquired ++ [(tid, call)] } := by
  have free := linear.sections.free granted
  have nobody : ∀ other otherCall, ¬ s.Inside other otherCall := by
    intro other otherCall inside
    have owns := inside.owns
    rw [free other] at owns
    cases owns
  have acquired := linear.ordered.quiet nobody
  refine ⟨sections, ?_, linear.onlyMemory, ⟨?_, ?_⟩, linear.sequential, answered, ?_⟩
  · intro other
    by_cases isTid : other = tid
    · simp [State.setThread, isTid, Thread.straight]
    · simpa [State.setThread, Function.update_of_ne isTid] using linear.straight other
  · intro other otherCall assumed
    obtain ⟨waited, point, inside⟩ := assumed
    by_cases isTid : other = tid
    · simp only [State.setThread, isTid, Function.update_self, Thread.inside.injEq] at inside
      rw [isTid, ← inside.1]
      exact congrArg (· ++ [(tid, call)]) acquired
    · simp only [State.setThread, Function.update_of_ne isTid] at inside
      exact absurd ⟨waited, point, inside⟩ (nobody other otherCall)
  · intro none_
    exact absurd ⟨false, call.entry false, Function.update_self _ _ _⟩ (none_ tid call)
  · intro other
    have counted := linear.releases other
    by_cases isTid : other = tid
    · subst isTid
      rw [here] at counted
      simpa [State.setThread, Thread.isReturning] using counted
    · simpa [State.setThread, Function.update_of_ne isTid] using counted

/-- The end of a pass: its call is the next one of the sequential run. -/
theorem Linear.settles (linear : Linear primitive maxCount s) {call : Call} {point : Point}
    {block : Block} {outcome : Outcome} {queue : Queue}
    (sections : Sections (.trying primitive)
      (((s.settled queue).completes tid call (call.settle outcome)).setThread tid
        (.releasing call (call.settle outcome))))
    (answered : (((s.settled queue).completes tid call (call.settle outcome)).setThread tid
      (.releasing call (call.settle outcome))).Answered)
    (here : s.thread tid = .inside call false point)
    (ran : call.pass false block s.base = .ok (outcome, queue)) :
    Linear primitive maxCount
      (((s.settled queue).completes tid call (call.settle outcome)).setThread tid
        (.releasing call (call.settle outcome))) := by
  have acquired := linear.ordered.pending tid call ⟨false, point, here⟩
  have nobody : ∀ other otherCall, ¬ (((s.settled queue).completes tid call
      (call.settle outcome)).setThread tid
        (.releasing call (call.settle outcome))).Inside other otherCall := by
    rintro other otherCall ⟨waited, otherPoint, inside⟩
    by_cases isTid : other = tid
    · simp [State.setThread, isTid] at inside
    · -- the holder was the only one inside
      simp only [State.setThread, State.completes, State.settled,
        Function.update_of_ne isTid] at inside
      exact isTid (linear.sections.exclusive (by rw [inside]; rfl) (by rw [here]; rfl))
  refine ⟨sections, ?_, linear.onlyMemory, ⟨?_, ?_⟩, linear.sequential.settle ran, answered,
    ?_⟩
  · intro other
    by_cases isTid : other = tid
    · simp [State.setThread, isTid, Thread.straight]
    · simpa [State.setThread, State.completes, State.settled, Function.update_of_ne isTid]
        using linear.straight other
  · intro other otherCall inside
    exact absurd inside (nobody other otherCall)
  · intro _
    simpa [State.setThread, State.completes, State.settled, State.settledCalls] using acquired
  · intro other
    have counted := linear.releases other
    by_cases isTid : other = tid
    · subst isTid
      simpa [here, Thread.isReturning, State.setThread, State.completes, State.settled]
        using counted
    · simpa [State.setThread, State.completes, State.settled, Function.update_of_ne isTid]
        using counted

end Steps

theorem not_straight {primitive : Primitive} {maxCount : Nat} {s : State n} {tid : Fin n}
    {thread : Thread} (linear : Linear primitive maxCount s) (here : s.thread tid = thread)
    (waits : thread.straight = false) : False := by
  have straight := linear.straight tid
  rw [here, waits] at straight
  cases straight

theorem Linear.inside {primitive : Primitive} {maxCount : Nat} {s : State n} {tid : Fin n}
    {call : Call} {waited : Bool} {point : Point} (linear : Linear primitive maxCount s)
    (here : s.thread tid = .inside call waited point) :
    waited = false ∧ Underway call false s.base point s.queue := by
  obtain ⟨holder, held⟩ := linear.sections
  have underway := (held.at_holder here rfl).2
  cases waited with
  | true => exact (not_straight linear here rfl).elim
  | false => exact ⟨rfl, underway⟩

theorem base_represents {maxCount : Nat} {s : State n} (sequential : s.Sequential maxCount) :
    ∃ (addrs : List Addr) (buffer : Fifo.Buffer Int maxCount), s.base.Represents addrs buffer := by
  obtain ⟨blocks, _, ran⟩ := sequential
  rcases runCalls_refines (Queue.represents_init maxCount)
    ((s.settledCalls.map Prod.snd).zip blocks) with
    failed | ⟨rets, q, addrs, buffer, other, represents, _⟩
  · rw [failed] at ran
    cases ran
  · rw [other] at ran
    cases ran
    exact ⟨addrs, buffer, represents⟩

/-- A pass over a queue fails only when there is no memory. -/
theorem outOfMemory_of_fault {maxCount : Nat} {q : Queue} {addrs : List Addr}
    {buffer : Fifo.Buffer Int maxCount} {call : Call} {block : Block} {fault : Fault}
    (represents : q.Represents addrs buffer) (failed : call.pass false block q = .error fault) :
    fault = .outOfMemory := by
  have runs := run_eq_pass call block q
  rw [failed] at runs
  rcases call_refines represents call block with outOfMemory | ⟨ret, after, _, _, succeeded, _⟩
  · rw [outOfMemory] at runs
    exact (Except.error.inj runs).symm
  · rw [succeeded] at runs
    cases runs

theorem linear_step {primitive : Primitive} {maxCount : Nat} {s next : State n} {action : Action n}
    (linear : Linear primitive maxCount s)
    (stepped : threadStep (.trying primitive) s action = some next) :
    Linear primitive maxCount next := by
  have sections := step_sections linear.sections stepped
  obtain ⟨running, move⟩ := threadStep_move stepped
  have answered := move_answered linear.answered move
  cases move with
  | @call tid call here =>
      have notInside := inside_false (s := s) tid (.acquiring call) (by simp [here]) (by simp)
      have counted := linear.releases tid
      rw [here] at counted
      exact linear.moves sections rfl rfl notInside rfl rfl rfl rfl answered
        (fun _ _ => rfl) counted (fun _ _ => rfl)
  | acquire here granted => exact linear.acquires here granted sections answered
  | reacquire here granted => exact (not_straight linear here rfl).elim
  | @fault tid block call waited point fault here ran =>
      obtain ⟨notWaited, underway⟩ := linear.inside here
      obtain ⟨chosen, failed⟩ := underway.fault ran
      obtain ⟨addrs, buffer, represents⟩ := base_represents linear.sequential
      have onlyMemory := outOfMemory_of_fault represents failed
      refine ⟨sections, linear.straight, ?_, ⟨linear.ordered.pending, linear.ordered.quiet⟩,
        linear.sequential, answered, linear.releases⟩
      intro other ended
      cases ended
      exact onlyMemory
  | @goto tid block call waited point after queue here ran =>
      obtain ⟨notWaited, underway⟩ := linear.inside here
      subst notWaited
      have counted := linear.releases tid
      rw [here] at counted
      refine linear.moves sections rfl rfl ?_ rfl rfl rfl rfl answered (fun _ _ => rfl)
        counted (fun _ _ => rfl)
      intro other
      constructor
      · intro assumed
        obtain ⟨_, _, isInside⟩ := assumed
        cases isInside
        exact ⟨false, point, here⟩
      · intro assumed
        obtain ⟨_, _, isInside⟩ := assumed
        rw [here] at isInside
        cases isInside
        exact ⟨false, after, rfl⟩
  | blocks waits here ran => cases waits
  | gives tries here ran =>
      obtain ⟨notWaited, underway⟩ := linear.inside here
      subst notWaited
      obtain ⟨chosen, passed⟩ := underway.blocked ran
      exact linear.settles sections answered here passed
  | done here ran =>
      obtain ⟨notWaited, underway⟩ := linear.inside here
      subst notWaited
      obtain ⟨chosen, passed⟩ := underway.done ran
      exact linear.settles sections answered here passed
  | wait here => exact (not_straight linear here rfl).elim
  | wake here => exact (not_straight linear here rfl).elim
  | signal here asleep waits => exact (not_straight linear here rfl).elim
  | signalNobody here nobody => exact (not_straight linear here rfl).elim
  | @release tid call ret here =>
      have notInside := inside_false (s := s) tid (.returning call ret) (by simp [here])
        (by simp)
      have counted := linear.releases tid
      rw [here] at counted
      refine linear.moves sections rfl rfl notInside rfl rfl rfl rfl answered
        (fun _ _ => rfl) ?_ (fun other elsewhere => Function.update_of_ne elsewhere _ _)
      simpa [Thread.isReturning, State.setThread] using counted
  | @return_ tid call ret here =>
      have notInside := inside_false (s := s) tid .idle (by simp [here]) (by simp)
      have counted := linear.releases tid
      rw [here] at counted
      refine linear.moves sections rfl rfl notInside rfl rfl rfl rfl answered
        (fun other elsewhere => Function.update_of_ne elsewhere _ _) ?_ (fun _ _ => rfl)
      simpa [Thread.isReturning, State.setThread] using counted

theorem start_linear (primitive : Primitive) (n maxCount : Nat) :
    Linear primitive maxCount (State.start (.trying primitive) n maxCount) where
  sections := start_sections _ n maxCount
  straight _ := rfl
  onlyMemory fault ended := by cases ended
  ordered := by
    refine ⟨?_, fun _ => rfl⟩
    rintro tid call ⟨waited, point, inside⟩
    cases inside
  sequential := ⟨[], rfl, rfl⟩
  answered _ := rfl
  releases _ := rfl

theorem owed_length {thread : Thread} (straight : thread.straight = true) :
    thread.owed.length + thread.isInside.toNat =
      thread.owns.toNat + thread.isReturning.toNat := by
  cases thread with
  | waiting call | sleeping call | woken call | signalling call ret => cases straight
  | _ => rfl

theorem isInside_iff {s : State n} {tid : Fin n} :
    (s.thread tid).isInside = true ↔ ∃ call, s.Inside tid call := by
  unfold State.Inside
  cases s.thread tid <;> simp [Thread.isInside]

theorem Linear.acquired_count {primitive : Primitive} {maxCount : Nat} {s : State n}
    (linear : Linear primitive maxCount s) (tid : Fin n) :
    (s.acquired.filter fun pair => pair.1 = tid).length =
      (s.resultsOf tid).length + (s.thread tid).isInside.toNat := by
  have settled : (s.settledCalls.filter fun pair => pair.1 = tid).length =
      (s.resultsOf tid).length := by
    simp [State.settledCalls, State.resultsOf, List.filter_map, Function.comp_def]
  by_cases someone : ∃ other call, s.Inside other call
  · obtain ⟨other, call, inside⟩ := someone
    rw [linear.ordered.pending other call inside, List.filter_append, List.length_append, settled]
    by_cases isTid : other = tid
    · subst isTid
      simp [isInside_iff.mpr ⟨call, inside⟩]
    · have outside : (s.thread tid).isInside = false := by
        rw [Bool.eq_false_iff, Ne, isInside_iff]
        intro assumed
        obtain ⟨otherCall, alsoInside⟩ := assumed
        exact isTid (linear.sections.exclusive inside.owns alsoInside.owns)
      simp [isTid, outside]
  · have nobody : ∀ other call, ¬ s.Inside other call := by simpa using someone
    have outside : (s.thread tid).isInside = false := by
      rw [Bool.eq_false_iff, Ne, isInside_iff]
      intro assumed
      obtain ⟨call, inside⟩ := assumed
      exact nobody tid call inside
    rw [linear.ordered.quiet nobody, settled, outside]
    rfl

theorem Linear.linearized {primitive : Primitive} {maxCount : Nat} {s : State n}
    (linear : Linear primitive maxCount s) : Linearized maxCount s := by
  refine ⟨fun _ _ => linear.sections.exclusive, ?_, linear.releases, linear.onlyMemory,
    linear.ordered, linear.sequential, linear.answered, ?_⟩
  · intro tid
    have owed := owed_length (linear.straight tid)
    rw [linear.acquired_count, linear.answered, linear.releases, List.length_append]
    omega
  · intro free
    obtain ⟨holder, held⟩ := linear.sections
    apply held.settled
    cases holder with
    | none => rfl
    | some tid =>
        have owns := (held.owner tid).mpr rfl
        rw [free tid] at owns
        cases owns

/-- Every state of every run of the mutex, the spinlock and the semaphore queue. -/
theorem locked_queue_linearizable (primitive : Primitive) (n maxCount : Nat)
    (actions : List (Action n)) :
    (sharedQueue (.trying primitive) n maxCount).Always (Linearized maxCount)
      (State.start (.trying primitive) n maxCount) actions :=
  System.always_of_invariant (Linear primitive maxCount) (start_linear primitive n maxCount)
    (fun _ _ _ linear stepped => linear_step linear stepped) (fun _ linear => linear.linearized)
    actions

end OsLabs.Sync
