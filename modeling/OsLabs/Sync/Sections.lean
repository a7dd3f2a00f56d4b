import OsLabs.Lib.Exclusive
import OsLabs.Sync.SharedQueue

/-!
# Critical sections of the shared queue

`Move` has one rule for each way a step can go.  From these rules: at most one
thread has the lock, the lock says so, and the queue is what the last pass left
unless the holder is in the middle of a pass of its own (`Sections`).
-/

set_option autoImplicit false

namespace OsLabs.Sync

open OsLabs.Exclusive OsLabs.Transition

variable {n : Nat}

inductive Move (v : Variant) (s : State n) : Action n → State n → Prop where
  | call {tid : Fin n} {call : Call} (here : s.thread tid = .idle) :
      Move v s (.call tid call) (s.setThread tid (.acquiring call))
  | acquire {tid : Fin n} {call : Call} {lock : Lock n} (here : s.thread tid = .acquiring call)
      (granted : s.lock.acquire tid = some lock) :
      Move v s (.acquire tid)
        { s.setThread tid (.inside call false (call.entry false)) with
          lock := lock
          acquired := s.acquired ++ [(tid, call)] }
  | reacquire {tid : Fin n} {call : Call} {lock : Lock n} (here : s.thread tid = .woken call)
      (granted : s.lock.acquire tid = some lock) :
      Move v s (.acquire tid)
        { s.setThread tid (.inside call true (call.entry true)) with lock := lock }
  | fault {tid : Fin n} {block : Block} {call : Call} {waited : Bool} {point : Point}
      {fault : Fault} (here : s.thread tid = .inside call waited point)
      (ran : statement block s.queue point = .error fault) :
      Move v s (.statement tid block) { s with ended := some fault }
  | goto {tid : Fin n} {block : Block} {call : Call} {waited : Bool} {point next : Point}
      {queue : Queue} (here : s.thread tid = .inside call waited point)
      (ran : statement block s.queue point = .ok (.goto next, queue)) :
      Move v s (.statement tid block)
        { s.setThread tid (.inside call waited next) with queue := queue }
  | blocks {tid : Fin n} {block : Block} {call : Call} {waited : Bool} {point : Point}
      {queue : Queue} (waits : v = .cond) (here : s.thread tid = .inside call waited point)
      (ran : statement block s.queue point = .ok (.blocked, queue)) :
      Move v s (.statement tid block) ((s.settled queue).setThread tid (.waiting call))
  | gives {tid : Fin n} {block : Block} {call : Call} {waited : Bool} {point : Point}
      {queue : Queue} {primitive : Primitive} (tries : v = .trying primitive)
      (here : s.thread tid = .inside call waited point)
      (ran : statement block s.queue point = .ok (.blocked, queue)) :
      Move v s (.statement tid block)
        (((s.settled queue).completes tid call (call.settle .blocked)).setThread tid
          (.releasing call (call.settle .blocked)))
  | done {tid : Fin n} {block : Block} {call : Call} {waited : Bool} {point : Point}
      {queue : Queue} {ret : Ret} (here : s.thread tid = .inside call waited point)
      (ran : statement block s.queue point = .ok (.done ret, queue)) :
      Move v s (.statement tid block)
        (((s.settled queue).completes tid call ret).setThread tid (v.afterDone call ret))
  | wait {tid : Fin n} {call : Call} (here : s.thread tid = .waiting call) :
      Move v s (.wait tid) { s.setThread tid (.sleeping call) with lock := s.lock.release }
  | wake {tid : Fin n} {call : Call} (here : s.thread tid = .sleeping call) :
      Move v s (.wake tid) (s.setThread tid (.woken call))
  | signal {tid other : Fin n} {call sleeper : Call} {ret : Ret}
      (here : s.thread tid = .signalling call ret) (asleep : s.thread other = .sleeping sleeper)
      (waits : sleeper.waitsFor = call.signals) :
      Move v s (.signal tid (some other))
        ((s.setThread other (.woken sleeper)).setThread tid (.releasing call ret))
  | signalNobody {tid : Fin n} {call : Call} {ret : Ret}
      (here : s.thread tid = .signalling call ret)
      (nobody : ∀ other condition, call.signals = some condition →
        (s.thread other).sleepsOn condition = false) :
      Move v s (.signal tid none) (s.setThread tid (.releasing call ret))
  | release {tid : Fin n} {call : Call} {ret : Ret} (here : s.thread tid = .releasing call ret) :
      Move v s (.release tid)
        { s.setThread tid (.returning call ret) with
          lock := s.lock.release
          releases := Function.update s.releases tid (s.releases tid + 1) }
  | return_ {tid : Fin n} {call : Call} {ret : Ret} (here : s.thread tid = .returning call ret) :
      Move v s (.return_ tid)
        { s.setThread tid .idle with
          returned := Function.update s.returned tid (s.returned tid ++ [(call, ret)]) }

theorem threadStep_move {v : Variant} {s next : State n} {action : Action n}
    (stepped : threadStep v s action = some next) : s.ended = none ∧ Move v s action next := by
  unfold threadStep at stepped
  split at stepped
  · cases stepped
  rename_i running
  refine ⟨Option.not_isSome_iff_eq_none.mp running, ?_⟩
  cases action with
  | call tid call =>
      simp only at stepped
      split at stepped
      · cases stepped
        exact .call (by assumption)
      · cases stepped
  | acquire tid =>
      simp only at stepped
      split at stepped
      · cases stepped
        exact .acquire (by assumption) (by assumption)
      · cases stepped
        exact .reacquire (by assumption) (by assumption)
      · cases stepped
  | statement tid block =>
      simp only [stepStatement] at stepped
      split at stepped
      · rename_i here
        split at stepped
        · cases stepped
          exact .fault here (by assumption)
        · cases stepped
          exact .goto here (by assumption)
        · split at stepped
          · cases stepped
            exact .blocks rfl here (by assumption)
          · cases stepped
            exact .gives rfl here (by assumption)
        · cases stepped
          exact .done here (by assumption)
      · cases stepped
  | wait tid =>
      simp only at stepped
      split at stepped
      · cases stepped
        exact .wait (by assumption)
      · cases stepped
  | wake tid =>
      simp only at stepped
      split at stepped
      · cases stepped
        exact .wake (by assumption)
      · cases stepped
  | signal tid target =>
      simp only [stepSignal] at stepped
      split at stepped
      · split at stepped
        · split at stepped
          · cases stepped
            exact .signal (by assumption) (by assumption) (by assumption)
          · cases stepped
        · cases stepped
      · split at stepped
        · cases stepped
          exact .signalNobody (by assumption) (by assumption)
        · cases stepped
      · cases stepped
  | release tid =>
      simp only at stepped
      split at stepped
      · cases stepped
        exact .release (by assumption)
      · cases stepped
  | return_ tid =>
      simp only at stepped
      split at stepped
      · cases stepped
        exact .return_ (by assumption)
      · cases stepped

/-! ## The holder of the lock -/

/-- The queue, seen from a thread that has the lock. -/
def Thread.Tracks (base queue : Queue) : Thread → Prop
  | .inside call waited point => Underway call waited base point queue
  | _ => queue = base

structure Held (v : Variant) (s : State n) (holder : Option (Fin n)) : Prop where
  owner : ∀ tid, (s.thread tid).owns = true ↔ holder = some tid
  lock : s.lock = v.primitive.heldBy holder
  tracks : ∀ tid, holder = some tid → (s.thread tid).Tracks s.base s.queue
  settled : holder = none → s.queue = s.base

def Sections (v : Variant) (s : State n) : Prop := ∃ holder, Held v s holder

section Held

variable {v : Variant} {s next : State n} {holder : Option (Fin n)} {tid : Fin n} {thread : Thread}

theorem Held.owners (held : Held v s holder) : Owner Thread.owns s.thread holder := held.owner

/-- A thread where the lock is held is the holder. -/
theorem Held.at_holder (held : Held v s holder) (here : s.thread tid = thread)
    (owns : thread.owns = true) : holder = some tid ∧ thread.Tracks s.base s.queue := by
  rw [← here] at owns ⊢
  have isHolder := (held.owner tid).mp owns
  exact ⟨isHolder, held.tracks tid isHolder⟩

/-- A thread without the lock moves to where it has no lock. -/
theorem Held.quiet (held : Held v s holder) (before : (s.thread tid).owns = false)
    (after : thread.owns = false) : Held v (s.setThread tid thread) holder := by
  refine ⟨held.owners.keeps (after.trans before.symm), held.lock, ?_, held.settled⟩
  intro other isHolder
  have different : other ≠ tid := by
    intro same
    subst same
    rw [(held.owner other).mpr isHolder] at before
    cases before
  simpa [State.setThread, Function.update_of_ne different] using held.tracks other isHolder

/-- The holder moves on, in its pass or to the end of it. -/
theorem Held.holds (held : Held v s (some tid)) (owns : thread.owns = true)
    (isNext : next.thread = Function.update s.thread tid thread) (sameLock : next.lock = s.lock)
    (tracks : thread.Tracks next.base next.queue) : Held v next (some tid) := by
  refine ⟨?_, sameLock.trans held.lock, ?_, fun isNone => by cases isNone⟩
  · rw [isNext]
    exact held.owners.keeps (owns.trans ((held.owner tid).mpr rfl).symm)
  · intro other isHolder
    cases isHolder
    rw [isNext, Function.update_self]
    exact tracks

theorem Held.acquired {lock : Lock n} (held : Held v s holder)
    (granted : s.lock.acquire tid = some lock) (owns : thread.owns = true)
    (isNext : next.thread = Function.update s.thread tid thread) (isLock : next.lock = lock)
    (tracks : s.queue = s.base → thread.Tracks next.base next.queue) : Held v next (some tid) := by
  rw [held.lock] at granted
  obtain ⟨isNone, isTaken⟩ := Lock.acquire_heldBy granted
  subst isNone
  refine ⟨?_, isLock.trans isTaken, ?_, fun isNone => by cases isNone⟩
  · rw [isNext]
    exact held.owners.takes owns
  · intro other isHolder
    cases isHolder
    rw [isNext, Function.update_self]
    exact tracks (held.settled rfl)

theorem Held.released (held : Held v s (some tid)) (after : thread.owns = false)
    (isNext : next.thread = Function.update s.thread tid thread)
    (isLock : next.lock = s.lock.release) (unchanged : next.queue = next.base) :
    Held v next none := by
  refine ⟨?_, ?_, ?_, fun _ => unchanged⟩
  · rw [isNext]
    exact held.owners.gives after
  · rw [isLock, held.lock, Lock.release_heldBy]
  · intro other isSome
    cases isSome

end Held

theorem Sections.exclusive {v : Variant} {s : State n} (sections : Sections v s)
    {first second : Fin n} (firstOwns : (s.thread first).owns = true)
    (secondOwns : (s.thread second).owns = true) : first = second := by
  obtain ⟨holder, held⟩ := sections
  exact held.owners.unique firstOwns secondOwns

/-- Nobody has the lock while it can be acquired. -/
theorem Sections.free {v : Variant} {s : State n} {tid : Fin n} {lock : Lock n}
    (sections : Sections v s) (granted : s.lock.acquire tid = some lock) (other : Fin n) :
    (s.thread other).owns = false := by
  obtain ⟨holder, held⟩ := sections
  rw [held.lock] at granted
  obtain ⟨rfl, -⟩ := Lock.acquire_heldBy granted
  exact held.owners.not_owns other

theorem afterDone_elim {P : Thread → Prop} {call : Call} {ret : Ret}
    (signalling : P (.signalling call ret)) (releasing : P (.releasing call ret)) (v : Variant) :
    P (v.afterDone call ret) := by
  unfold Variant.afterDone
  split
  · exact signalling
  · exact releasing

theorem move_held {v : Variant} {s next : State n} {action : Action n} {holder : Option (Fin n)}
    (held : Held v s holder) (move : Move v s action next) : Sections v next := by
  cases move with
  | call here => exact ⟨_, held.quiet (by rw [here]; rfl) rfl⟩
  | acquire here granted =>
      refine ⟨_, held.acquired granted rfl rfl rfl fun same => ?_⟩
      show Underway _ _ s.base _ s.queue
      rw [same]
      exact underway_entry _ _ _
  | reacquire here granted =>
      refine ⟨_, held.acquired granted rfl rfl rfl fun same => ?_⟩
      show Underway _ _ s.base _ s.queue
      rw [same]
      exact underway_entry _ _ _
  | fault here ran => exact ⟨holder, held.owner, held.lock, held.tracks, held.settled⟩
  | @goto tid block call waited point after queue here ran =>
      obtain ⟨rfl, underway⟩ := held.at_holder here rfl
      exact ⟨_, held.holds rfl rfl rfl (underway.goto ran)⟩
  | @blocks tid block call waited point queue waits here ran =>
      obtain ⟨rfl, -⟩ := held.at_holder here rfl
      exact ⟨_, held.holds rfl rfl rfl rfl⟩
  | @gives tid block call waited point queue primitive tries here ran =>
      obtain ⟨rfl, -⟩ := held.at_holder here rfl
      exact ⟨_, held.holds rfl rfl rfl rfl⟩
  | @done tid block call waited point queue ret here ran =>
      obtain ⟨rfl, -⟩ := held.at_holder here rfl
      refine ⟨_, held.holds (?_ : (v.afterDone call ret).owns = true) rfl rfl ?_⟩
      · exact afterDone_elim (P := fun thread => thread.owns = true) rfl rfl v
      · exact afterDone_elim (P := Thread.Tracks queue queue) rfl rfl v
  | @wait tid call here =>
      obtain ⟨rfl, tracks⟩ := held.at_holder here rfl
      exact ⟨_, held.released rfl rfl rfl tracks⟩
  | wake here => exact ⟨_, held.quiet (by rw [here]; rfl) rfl⟩
  | @signal tid other call sleeper ret here asleep waits =>
      obtain ⟨rfl, tracks⟩ := held.at_holder here rfl
      have woken := held.quiet (show (s.thread other).owns = false by rw [asleep]; rfl)
        (show (Thread.woken sleeper).owns = false from rfl)
      exact ⟨_, woken.holds rfl rfl rfl tracks⟩
  | @signalNobody tid call ret here nobody =>
      obtain ⟨rfl, tracks⟩ := held.at_holder here rfl
      exact ⟨_, held.holds rfl rfl rfl tracks⟩
  | @release tid call ret here =>
      obtain ⟨rfl, tracks⟩ := held.at_holder here rfl
      exact ⟨_, held.released rfl rfl rfl tracks⟩
  | @return_ tid call ret here =>
      have quiet := held.quiet (show (s.thread tid).owns = false by rw [here]; rfl)
        (show Thread.idle.owns = false from rfl)
      exact ⟨_, quiet.owner, quiet.lock, quiet.tracks, quiet.settled⟩

theorem start_sections (v : Variant) (n maxCount : Nat) :
    Sections v (State.start v n maxCount) := by
  refine ⟨none, ?_, (Lock.heldBy_none v.primitive).symm, ?_, fun _ => rfl⟩
  · intro tid
    simp [State.start, Thread.owns]
  · intro tid isSome
    cases isSome

/-! ## Results -/

/-- The result a thread has still to return. -/
def Thread.owed : Thread → List (Call × Ret)
  | .signalling call ret | .releasing call ret | .returning call ret => [(call, ret)]
  | _ => []

/-- The results of one thread, in the order of `completed`. -/
def State.resultsOf (s : State n) (tid : Fin n) : List (Call × Ret) :=
  (s.completed.filter fun record => record.1 = tid).map Prod.snd

/-- Every thread returns the results of its own calls, in order. -/
def State.Answered (s : State n) : Prop :=
  ∀ tid, s.resultsOf tid = s.returned tid ++ (s.thread tid).owed

section Answered

variable {s next : State n} {tid : Fin n} {thread : Thread}

theorem State.Answered.moves (answered : s.Answered)
    (isNext : next.thread = Function.update s.thread tid thread)
    (sameCompleted : next.completed = s.completed) (sameReturned : next.returned = s.returned)
    (owes : thread.owed = (s.thread tid).owed) : next.Answered := by
  intro other
  have sofar := answered other
  rw [State.resultsOf, sameCompleted, sameReturned, isNext]
  by_cases here : other = tid
  · rw [here, Function.update_self, owes, ← here]
    exact sofar
  · rw [Function.update_of_ne here]
    exact sofar

theorem State.Answered.completes (answered : s.Answered) (queue : Queue) {call : Call} {ret : Ret}
    (nothing : (s.thread tid).owed = []) (owes : thread.owed = [(call, ret)]) :
    (((s.settled queue).completes tid call ret).setThread tid thread).Answered := by
  intro other
  have sofar := answered other
  unfold State.resultsOf at sofar ⊢
  by_cases here : other = tid
  · subst here
    rw [nothing, List.append_nil] at sofar
    simp [State.setThread, State.completes, State.settled, sofar, owes]
  · have elsewhere : ¬ tid = other := fun same => here same.symm
    simp [State.setThread, State.completes, State.settled, sofar, elsewhere,
      Function.update_of_ne here]

end Answered

theorem move_answered {v : Variant} {s next : State n} {action : Action n}
    (answered : s.Answered) (move : Move v s action next) : next.Answered := by
  cases move with
  | call here => exact answered.moves rfl rfl rfl (by rw [here]; rfl)
  | acquire here granted => exact answered.moves rfl rfl rfl (by rw [here]; rfl)
  | reacquire here granted => exact answered.moves rfl rfl rfl (by rw [here]; rfl)
  | fault here ran => exact answered
  | goto here ran => exact answered.moves rfl rfl rfl (by rw [here]; rfl)
  | blocks waits here ran => exact answered.moves rfl rfl rfl (by rw [here]; rfl)
  | gives tries here ran => exact answered.completes _ (by rw [here]; rfl) rfl
  | @done tid block call waited point queue ret here ran =>
      refine answered.completes _ (by rw [here]; rfl) ?_
      exact afterDone_elim (P := fun thread => thread.owed = [(call, ret)]) rfl rfl v
  | wait here => exact answered.moves rfl rfl rfl (by rw [here]; rfl)
  | wake here => exact answered.moves rfl rfl rfl (by rw [here]; rfl)
  | @signal tid other call sleeper ret here asleep waits =>
      have woken : (s.setThread other (.woken sleeper)).Answered :=
        answered.moves rfl rfl rfl (by rw [asleep]; rfl)
      have different : tid ≠ other := by
        intro same
        subst same
        rw [asleep] at here
        cases here
      refine woken.moves rfl rfl rfl ?_
      simp [State.setThread, Function.update_of_ne different, here, Thread.owed]
  | signalNobody here nobody => exact answered.moves rfl rfl rfl (by rw [here]; rfl)
  | release here => exact answered.moves rfl rfl rfl (by rw [here]; rfl)
  | @return_ tid call ret here =>
      intro other
      have sofar := answered other
      by_cases isTid : other = tid
      · subst isTid
        rw [here] at sofar
        simpa [State.resultsOf, State.setThread, Thread.owed] using sofar
      · simpa [State.resultsOf, State.setThread, Function.update_of_ne isTid] using sofar

/-! ## The call of a thread -/

/-- The call a thread is in. -/
def Thread.current : Thread → Option Call
  | .idle => none
  | .acquiring call | .inside call _ _ | .waiting call | .sleeping call | .woken call
  | .signalling call _ | .releasing call _ | .returning call _ => some call

theorem call_thread {v : Variant} {s next : State n} {tid : Fin n} {call : Call}
    (move : Move v s (.call tid call) next) :
    next.thread = Function.update s.thread tid (.acquiring call) := by
  cases move with
  | call here => rfl

theorem current_update (thread : Fin n → Thread) (tid other : Fin n) (place : Thread)
    (call : Call) (current : (Function.update thread tid place other).current = some call)
    (same : ∀ call, place.current = some call → (thread tid).current = some call) :
    (thread other).current = some call := by
  by_cases here : other = tid
  · rw [here, Function.update_self] at current
    rw [here]
    exact same call current
  · rwa [Function.update_of_ne here] at current

/-- Inside a call a thread stays with it. -/
theorem move_current {v : Variant} {s next : State n} {action : Action n}
    (move : Move v s action next) (inside : ∀ tid call, action ≠ .call tid call) (other : Fin n)
    (call : Call) (current : (next.thread other).current = some call) :
    (s.thread other).current = some call := by
  cases move with
  | call here => exact absurd rfl (inside _ _)
  | fault here ran => exact current
  | @done tid block call' waited point queue ret here ran =>
      refine current_update _ tid other _ call current ?_
      rw [here]
      exact afterDone_elim (P := fun thread => ∀ c, thread.current = some c → some call' = some c)
        (fun _ => id) (fun _ => id) v
  | @signal tid woken call' sleeper ret here asleep waits =>
      have different : tid ≠ woken := by
        intro same
        subst same
        rw [asleep] at here
        cases here
      have signaller : (Function.update s.thread woken (.woken sleeper) tid).current =
          some call' := by
        rw [Function.update_of_ne different, here]
        rfl
      have middle : (Function.update s.thread woken (.woken sleeper) other).current = some call :=
        current_update _ tid other _ call current (by rw [signaller]; exact fun _ => id)
      exact current_update _ woken other _ call middle (by rw [asleep]; exact fun _ => id)
  | acquire here | reacquire here | goto here | blocks _ here | gives _ here | wait here
  | wake here | signalNobody here | release here =>
      exact current_update _ _ other _ call current (by rw [here]; exact fun _ => id)
  | return_ here => exact current_update _ _ other _ call current (by simp [Thread.current])

theorem step_sections {v : Variant} {s next : State n} {action : Action n}
    (sections : Sections v s) (stepped : threadStep v s action = some next) : Sections v next := by
  obtain ⟨holder, held⟩ := sections
  exact move_held held (threadStep_move stepped).2

end OsLabs.Sync
