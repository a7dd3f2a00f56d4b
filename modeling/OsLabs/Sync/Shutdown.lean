import OsLabs.Sync.CondQueue

/-!
# Shutdown of the condition-variable queue program

`queue-threads.c` of `lab2.2/cond`: a reader, a writer and the monitor of the
queue, and the main thread that cancels and joins them.  Cancellation is
deferred: a request stays pending until the thread is at a cancellation point.
A request that takes effect in `pthread_cond_wait` unblocks the thread, which
ends where it would return, with the mutex.
-/

set_option autoImplicit false

namespace OsLabs.Sync

open OsLabs.Transition

abbrev Worker := Fin 3

@[match_pattern] abbrev reader : Worker := 0

@[match_pattern] abbrev writer : Worker := 1

@[match_pattern] abbrev qmonitor : Worker := 2

/-- Where a worker is in its own function. -/
inductive Place where
  | notCreated
  | hello
  | setCpu
  | testCancel
  | calls
  | inCall
  | error (val : Int)
  | sleeps
  | terminated
  deriving DecidableEq

inductive MainPoint where
  | queueInit
  | createReader
  | createWriter
  | sleep
  | cancelReader
  | cancelWriter
  | joinReader
  | joinWriter
  | cancelMonitor
  | joinMonitor
  | exited
  deriving DecidableEq

/-- The thread that main waits for. -/
def MainPoint.joins : MainPoint → Option Worker
  | .joinReader => some reader
  | .joinWriter => some writer
  | .joinMonitor => some qmonitor
  | _ => none

/-- `expected` and `i` are the locals of `reader` and `writer`. -/
structure Process where
  shared : State 3
  place : Worker → Place
  pending : Worker → Bool
  expected : Int
  i : Int
  main : MainPoint

/-- `main` comes with the error its call reports, if any. -/
inductive ProcessAction where
  | main (err : Bool)
  | outside (worker : Worker)
  | inside (action : Action 3)
  | cancelled (worker : Worker)

namespace Process

def goto (s : Process) (worker : Worker) (place : Place) : Process :=
  { s with place := Function.update s.place worker place }

def create (s : Process) (worker : Worker) (main : MainPoint) : Option Process :=
  if s.place worker = .notCreated then some { s.goto worker .hello with main := main } else none

/-- `abort` stands without a call after a `pthread_cancel` that failed. -/
def cancel (s : Process) (worker : Worker) (err : Bool) (main : MainPoint) : Process :=
  { s with pending := if err then s.pending else Function.update s.pending worker true, main := main }

def join (s : Process) (worker : Worker) (main : MainPoint) : Option Process :=
  if s.place worker = .terminated then some { s with main := main } else none

def mainStep (s : Process) (err : Bool) : Option Process :=
  match s.main with
  | .queueInit => if err then some { s with main := .exited } else s.create qmonitor .createReader
  | .createReader => if err then some { s with main := .exited } else s.create reader .createWriter
  | .createWriter => if err then some { s with main := .exited } else s.create writer .sleep
  | .sleep => some { s with main := .cancelReader }
  | .cancelReader => some (s.cancel reader err .cancelWriter)
  | .cancelWriter => some (s.cancel writer err .joinReader)
  | .joinReader => if err then some { s with main := .exited } else s.join reader .joinWriter
  | .joinWriter => if err then some { s with main := .exited } else s.join writer .cancelMonitor
  | .cancelMonitor => some (s.cancel qmonitor err .joinMonitor)
  | .joinMonitor => if err then some { s with main := .exited } else s.join qmonitor .exited
  | .exited => none

def callOf (s : Process) : Worker → Call
  | reader => .get (-1)
  | writer => .add s.i
  | qmonitor => .printStats

/-- What a worker does with a result. -/
def returned (s : Process) (worker : Worker) : Ret → Process
  | .got ok val =>
      if ok = 0 then s.goto worker .testCancel
      else if s.expected ≠ val then s.goto worker (.error val)
      else { s.goto worker .testCancel with expected := val + 1 }
  | .added ok =>
      if ok = 0 then s.goto worker .testCancel
      else { s.goto worker .testCancel with i := s.i + 1 }
  | .printed _ => s.goto worker .sleeps

/-- `pthread_testcancel` and `sleep` do not go on while a request is pending. -/
def outsideStep (s : Process) (worker : Worker) : Option Process :=
  match s.place worker with
  | .hello => some (s.goto worker (if worker = qmonitor then .calls else .setCpu))
  | .setCpu => some (s.goto worker .testCancel)
  | .testCancel => if s.pending worker then none else some (s.goto worker .calls)
  | .calls =>
      (threadStep .cond s.shared (.call worker (s.callOf worker))).map fun shared =>
        { s with shared := shared }.goto worker .inCall
  | .inCall =>
      match s.shared.thread worker with
      | .returning _ ret =>
          (threadStep .cond s.shared (.return_ worker)).map fun shared =>
            { s with shared := shared }.returned worker ret
      | _ => none
  | .error val => some { s.goto worker .testCancel with expected := val + 1 }
  | .sleeps => if s.pending worker then none else some (s.goto worker .calls)
  | .notCreated | .terminated => none

def insideStep (s : Process) (action : Action 3) : Option Process :=
  match action with
  | .call _ _ | .return_ _ => none
  | action =>
      if s.place action.actor = .inCall then
        (threadStep .cond s.shared action).map fun shared => { s with shared := shared }
      else none

/-- A pending request takes effect: at `pthread_testcancel`, in `sleep`, in
`printf` wherever it stands, and in `pthread_cond_wait`. -/
def cancelStep (s : Process) (worker : Worker) : Option Process :=
  if s.pending worker then
    match s.place worker with
    | .hello | .setCpu | .testCancel | .error _ | .sleeps => some (s.goto worker .terminated)
    | .inCall =>
        match s.shared.thread worker with
        | .inside _ _ .printLine | .inside _ _ .addNoMemory => some (s.goto worker .terminated)
        | .woken _ =>
            (threadStep .cond s.shared (.acquire worker)).map fun shared =>
              { s with shared := shared }.goto worker .terminated
        | _ => none
    | .notCreated | .calls | .terminated => none
  else none

def step (s : Process) (action : ProcessAction) : Option Process :=
  if s.main = .exited ∨ s.shared.ended.isSome then none
  else
    match action with
    | .main err => s.mainStep err
    | .outside worker => s.outsideStep worker
    | .inside action => s.insideStep action
    | .cancelled worker => s.cancelStep worker

def start : Process where
  shared := State.start .cond 3 1000
  place := fun _ => .notCreated
  pending := fun _ => false
  expected := 0
  i := 0
  main := .queueInit

end Process

def queueThreads : System Process ProcessAction := ⟨Process.start, Process.step⟩

/-! ## What a step can do -/

inductive Effect (s : Process) : ProcessAction → Process → Prop where
  | main {err : Bool} {next : Process} (sameShared : next.shared = s.shared)
      (samePlace : next.place = s.place) : Effect s (.main err) next
  | moves {action : ProcessAction} {worker : Worker} {place : Place} {next : Process}
      (uncancelled : ∀ other, action ≠ .cancelled other) (before : s.place worker ≠ .inCall)
      (after : place ≠ .inCall) (sameShared : next.shared = s.shared)
      (moved : next.place = Function.update s.place worker place) : Effect s action next
  | ends {worker : Worker} {next : Process} (before : s.place worker ≠ .inCall)
      (sameShared : next.shared = s.shared)
      (moved : next.place = Function.update s.place worker .terminated) :
      Effect s (.cancelled worker) next
  | enters {worker : Worker} {call : Call} {next : Process} (before : s.place worker = .calls)
      (stepped : threadStep .cond s.shared (.call worker call) = some next.shared)
      (moved : next.place = Function.update s.place worker .inCall) :
      Effect s (.outside worker) next
  | inside {action : Action 3} {next : Process} (before : s.place action.actor = .inCall)
      (stepped : threadStep .cond s.shared action = some next.shared)
      (samePlace : next.place = s.place) : Effect s (.inside action) next
  | returns {worker : Worker} {place : Place} {next : Process} (before : s.place worker = .inCall)
      (after : place ≠ .inCall)
      (stepped : threadStep .cond s.shared (.return_ worker) = some next.shared)
      (moved : next.place = Function.update s.place worker place) :
      Effect s (.outside worker) next
  | dies {worker : Worker} {next : Process} (before : s.place worker = .inCall)
      (owns : (next.shared.thread worker).owns = true)
      (stepped : next.shared = s.shared ∨
        threadStep .cond s.shared (.acquire worker) = some next.shared)
      (moved : next.place = Function.update s.place worker .terminated) :
      Effect s (.cancelled worker) next

section Effects

variable {s next : Process}

theorem create_effect {worker : Worker} {main : MainPoint} {err : Bool}
    (stepped : s.create worker main = some next) : Effect s (.main err) next := by
  unfold Process.create at stepped
  split at stepped
  · rename_i fresh
    cases stepped
    exact .moves (by simp) (by rw [fresh]; simp) (by simp) rfl rfl
  · cases stepped

theorem join_effect {worker : Worker} {main : MainPoint} {err : Bool}
    (stepped : s.join worker main = some next) : Effect s (.main err) next := by
  unfold Process.join at stepped
  split at stepped
  · cases stepped
    exact .main rfl rfl
  · cases stepped

theorem mainStep_effect {err : Bool} (stepped : s.mainStep err = some next) :
    Effect s (.main err) next := by
  unfold Process.mainStep at stepped
  split at stepped
  case h_4 | h_5 | h_6 | h_9 =>
    cases stepped
    exact .main rfl rfl
  case h_11 => cases stepped
  all_goals
    split at stepped
    · cases stepped
      exact .main rfl rfl
    · first
        | exact create_effect stepped
        | exact join_effect stepped

theorem returned_place (s : Process) (worker : Worker) (ret : Ret) :
    (s.returned worker ret).shared = s.shared ∧ ∃ place, place ≠ .inCall ∧
      (s.returned worker ret).place = Function.update s.place worker place := by
  cases ret with
  | got ok val =>
      simp only [Process.returned]
      split
      · exact ⟨rfl, .testCancel, by simp, rfl⟩
      · split
        · exact ⟨rfl, .error val, by simp, rfl⟩
        · exact ⟨rfl, .testCancel, by simp, rfl⟩
  | added ok =>
      simp only [Process.returned]
      split
      · exact ⟨rfl, .testCancel, by simp, rfl⟩
      · exact ⟨rfl, .testCancel, by simp, rfl⟩
  | printed line => exact ⟨rfl, .sleeps, by simp, rfl⟩

theorem outsideStep_effect {worker : Worker} (stepped : s.outsideStep worker = some next) :
    Effect s (.outside worker) next := by
  unfold Process.outsideStep at stepped
  split at stepped
  · rename_i here
    cases stepped
    exact .moves (by simp) (by rw [here]; simp) (by split <;> simp) rfl rfl
  · rename_i here
    cases stepped
    exact .moves (by simp) (by rw [here]; simp) (by simp) rfl rfl
  · rename_i here
    split at stepped
    · cases stepped
    · cases stepped
      exact .moves (by simp) (by rw [here]; simp) (by simp) rfl rfl
  · rename_i here
    obtain ⟨shared, called, isNext⟩ := Option.map_eq_some_iff.mp stepped
    subst isNext
    exact .enters here called rfl
  · rename_i here
    split at stepped
    · rename_i call ret returning
      obtain ⟨shared, ran, isNext⟩ := Option.map_eq_some_iff.mp stepped
      subst isNext
      obtain ⟨sameShared, place, after, moved⟩ :=
        returned_place { s with shared := shared } worker ret
      exact .returns here after (by rw [sameShared]; exact ran) moved
    · cases stepped
  · rename_i here
    cases stepped
    exact .moves (by simp) (by rw [here]; simp) (by simp) rfl rfl
  · rename_i here
    split at stepped
    · cases stepped
    · cases stepped
      exact .moves (by simp) (by rw [here]; simp) (by simp) rfl rfl
  · cases stepped
  · cases stepped

theorem insideStep_effect {action : Action 3} (stepped : s.insideStep action = some next) :
    Effect s (.inside action) next := by
  unfold Process.insideStep at stepped
  split at stepped
  · cases stepped
  · cases stepped
  · split at stepped
    · rename_i here
      obtain ⟨shared, ran, isNext⟩ := Option.map_eq_some_iff.mp stepped
      subst isNext
      exact .inside here ran rfl
    · cases stepped

theorem acquire_owns {shared after : State 3} {worker : Worker}
    (stepped : threadStep .cond shared (.acquire worker) = some after) :
    (after.thread worker).owns = true := by
  obtain ⟨_, move⟩ := threadStep_move stepped
  cases move with
  | acquire here granted | reacquire here granted => simp [State.setThread, Thread.owns]

theorem cancelStep_effect {worker : Worker} (stepped : s.cancelStep worker = some next) :
    Effect s (.cancelled worker) next := by
  unfold Process.cancelStep at stepped
  split at stepped
  · split at stepped
    case h_6 here =>
      split at stepped
      · rename_i inside
        cases stepped
        exact .dies here (by simp only [Process.goto, inside]; rfl) (Or.inl rfl) rfl
      · rename_i inside
        cases stepped
        exact .dies here (by simp only [Process.goto, inside]; rfl) (Or.inl rfl) rfl
      · obtain ⟨shared, ran, isNext⟩ := Option.map_eq_some_iff.mp stepped
        subst isNext
        exact .dies here (acquire_owns ran) (Or.inr ran) rfl
      · cases stepped
    case h_7 | h_8 | h_9 => cases stepped
    all_goals
      rename_i here
      cases stepped
      exact .ends (by rw [here]; simp) rfl rfl
  · cases stepped

theorem step_effect {action : ProcessAction} (stepped : s.step action = some next) :
    Effect s action next := by
  unfold Process.step at stepped
  split at stepped
  · cases stepped
  · cases action with
    | main err => exact mainStep_effect stepped
    | outside worker => exact outsideStep_effect stepped
    | inside action => exact insideStep_effect stepped
    | cancelled worker => exact cancelStep_effect stepped

end Effects

/-! ## Wedged joins -/

def Thread.wantsLock : Thread → Bool
  | .acquiring _ | .woken _ => true
  | _ => false

/-- The worker asks for the mutex and another one has it. -/
def Process.BlockedBy (s : Process) (worker owner : Worker) : Prop :=
  s.place worker = .inCall ∧ (s.shared.thread worker).wantsLock = true ∧
    s.shared.lock = .mutex (some owner)

structure Unwedged (s : Process) : Prop where
  notLeft : ∀ worker, s.place worker = .terminated → s.shared.lock ≠ .mutex (some worker)
  joins : ∀ worker owner, s.main.joins = some worker → s.BlockedBy worker owner →
    s.place owner ≠ .terminated

/-- A request that takes effect does so outside the calls of the queue. -/
def OutsideCalls (s : Process) : ProcessAction → Prop
  | .cancelled worker => s.place worker ≠ .inCall
  | _ => True

/-- As long as nobody is cancelled in a call, a worker outside has no part in
the queue. -/
structure Orderly (s : Process) : Prop where
  reached : (sharedQueue .cond 3 1000).Reachable s.shared
  idle : ∀ worker, s.place worker ≠ .inCall → s.shared.thread worker = .idle

theorem move_idle {shared after : State 3} {action : Action 3} {worker : Worker}
    (move : Move .cond shared action after) (elsewhere : worker ≠ action.actor)
    (idle : shared.thread worker = .idle) : after.thread worker = .idle := by
  cases move with
  | fault here ran => exact idle
  | @signal tid other call sleeper ret here asleep waits =>
      have notSleeper : worker ≠ other := by
        intro same
        subst same
        rw [asleep] at idle
        cases idle
      have notTid : worker ≠ tid := elsewhere
      simp only [State.setThread, Function.update_of_ne notTid, Function.update_of_ne notSleeper]
      exact idle
  | gives tries here ran => cases tries
  | call | acquire | reacquire | goto | blocks | done | wait | wake | signalNobody | release
  | return_ =>
      simp only [State.setThread, Action.actor] at elsewhere ⊢
      rw [Function.update_of_ne elsewhere]
      exact idle

theorem return_idle {shared after : State 3} {worker : Worker}
    (stepped : threadStep .cond shared (.return_ worker) = some after) :
    after.thread worker = .idle := by
  obtain ⟨_, move⟩ := threadStep_move stepped
  cases move with
  | return_ here => simp [State.setThread]

theorem Orderly.of_shared {s next : Process} {action : Action 3} {place : Place}
    (orderly : Orderly s) (stepped : threadStep .cond s.shared action = some next.shared)
    (moved : next.place = Function.update s.place action.actor place)
    (outside : place ≠ .inCall → next.shared.thread action.actor = .idle) : Orderly next := by
  refine ⟨orderly.reached.step stepped, ?_⟩
  intro other notInCall
  rw [moved] at notInCall
  by_cases here : other = action.actor
  · rw [here, Function.update_self] at notInCall
    rw [here]
    exact outside notInCall
  · rw [Function.update_of_ne here] at notInCall
    exact move_idle (threadStep_move stepped).2 here (orderly.idle other notInCall)

/-- A step outside the calls. -/
theorem Orderly.outside {s next : Process} {worker : Worker} {place : Place} (orderly : Orderly s)
    (before : s.place worker ≠ .inCall) (sameShared : next.shared = s.shared)
    (moved : next.place = Function.update s.place worker place) : Orderly next := by
  refine ⟨by rw [sameShared]; exact orderly.reached, ?_⟩
  intro other notInCall
  rw [sameShared]
  rw [moved] at notInCall
  by_cases here : other = worker
  · rw [here]
    exact orderly.idle worker before
  · rw [Function.update_of_ne here] at notInCall
    exact orderly.idle other notInCall

theorem orderly_step {s next : Process} {action : ProcessAction} (orderly : Orderly s)
    (guarded : OutsideCalls s action) (stepped : s.step action = some next) : Orderly next := by
  cases step_effect stepped with
  | main sameShared samePlace =>
      refine ⟨by rw [sameShared]; exact orderly.reached, ?_⟩
      rw [sameShared, samePlace]
      exact orderly.idle
  | moves uncancelled before after sameShared moved =>
      exact orderly.outside before sameShared moved
  | ends before sameShared moved => exact orderly.outside before sameShared moved
  | enters before called moved =>
      exact orderly.of_shared called moved fun inCall => absurd rfl inCall
  | @inside action next before ran samePlace =>
      have inCall : next.place = Function.update s.place action.actor .inCall := by
        rw [samePlace, ← before, Function.update_eq_self]
      exact orderly.of_shared ran inCall fun outside => absurd rfl outside
  | returns before after ran moved =>
      exact orderly.of_shared ran moved fun _ => return_idle ran
  | dies before owns ran moved => exact absurd before guarded

theorem Orderly.sections {s : Process} (orderly : Orderly s) : Sections .cond s.shared :=
  orderly.reached.invariant (Sections .cond) (start_sections .cond 3 1000)
    fun _ _ _ sections stepped => step_sections sections stepped

theorem Orderly.unwedged {s : Process} (orderly : Orderly s) : Unwedged s := by
  obtain ⟨holder, held⟩ := orderly.sections
  have notLeft : ∀ worker, s.place worker = .terminated →
      s.shared.lock ≠ .mutex (some worker) := by
    intro worker terminated isOwner
    rw [held.lock] at isOwner
    have owns := (held.owner worker).mpr (Lock.mutex.inj isOwner)
    rw [orderly.idle worker (by rw [terminated]; simp)] at owns
    cases owns
  refine ⟨notLeft, ?_⟩
  intro worker owner _ blocked terminated
  exact notLeft owner terminated blocked.2.2

/-- A request that takes effect in a call leaves the mutex locked. -/
theorem dies_wedged {s next : Process} {worker : Worker} (orderly : Orderly s)
    (inCall : s.place worker = .inCall) (stepped : s.step (.cancelled worker) = some next) :
    ¬ Unwedged next := by
  intro unwedged
  cases step_effect stepped with
  | moves uncancelled => exact uncancelled worker rfl
  | ends before => exact before inCall
  | dies before owns ran moved =>
      have sections : Sections .cond next.shared := by
        rcases ran with same | acquired
        · rw [same]
          exact orderly.sections
        · exact step_sections orderly.sections acquired
      obtain ⟨holder, held⟩ := sections
      have terminated : next.place worker = .terminated := by rw [moved, Function.update_self]
      refine unwedged.notLeft worker terminated ?_
      rw [held.lock, (held.owner worker).mp owns]
      rfl

/-- All along a run nothing is wedged, exactly when every request that takes
effect does so outside the calls of the queue. -/
theorem unwedged_iff (actions : List ProcessAction) :
    queueThreads.Always Unwedged Process.start actions ↔
      queueThreads.Meets OutsideCalls Process.start actions := by
  refine System.always_iff_meets OutsideCalls Orderly Unwedged (fun _ => Orderly.unwedged) ?_ ?_
    Process.start actions ⟨⟨[], rfl⟩, fun _ _ => rfl⟩
  · intro s action next orderly guarded stepped
    exact orderly_step orderly guarded stepped
  · intro s action next orderly stepped unwedged
    cases action with
    | cancelled worker =>
        intro inCall
        exact dies_wedged orderly inCall stepped unwedged
    | main | outside | inside => trivial

/-- The reader waits on the empty queue when its request takes effect, and main
joins the writer, which is about to take the mutex. -/
def cancelledInWait : List ProcessAction :=
  List.replicate 3 (.main false) ++ List.replicate 4 (.outside reader) ++
    [.inside (.acquire reader)] ++ List.replicate 3 (.inside (.statement reader none)) ++
    [.inside (.wait reader)] ++ List.replicate 4 (.outside writer) ++
    List.replicate 3 (.main false) ++ [.inside (.wake reader), .cancelled reader, .main false]

theorem wedged_join :
    ¬ queueThreads.Always
      (fun s => ∀ worker owner, s.main.joins = some worker → s.BlockedBy worker owner →
        s.place owner ≠ .terminated) Process.start cancelledInWait := by
  intro always
  have joins := always.along cancelledInWait [] rfl
  exact joins writer reader rfl ⟨rfl, rfl, rfl⟩ rfl

end OsLabs.Sync
