import OsLabs.Sync.Shutdown

/-!
# Shutdown of the programs whose calls do not wait

`queue-threads.c` of `lab2.2/mutex`, `spinlock` and `sem`: the same threads as
in `cond`, but the calls return 0 where the others wait, and the writer sleeps
behind each value.  `sem_wait` is a cancellation point, and a thread that is
cancelled there does not have the semaphore; the other two locks are none.
-/

set_option autoImplicit false

namespace OsLabs.Sync

open OsLabs.Transition

namespace Process

/-- Behind `i++` the writer calls `usleep`. -/
def tryReturned (s : Process) (worker : Worker) : Ret → Process
  | .added ok =>
      if ok = 0 then s.goto worker .testCancel
      else { s.goto worker .sleeps with i := s.i + 1 }
  | ret => s.returned worker ret

def tryOutsideStep (primitive : Primitive) (s : Process) (worker : Worker) : Option Process :=
  match s.place worker with
  | .hello => some (s.goto worker (if worker = qmonitor then .calls else .setCpu))
  | .setCpu => some (s.goto worker .testCancel)
  | .testCancel => if s.pending worker then none else some (s.goto worker .calls)
  | .calls =>
      (threadStep (.trying primitive) s.shared (.call worker (s.callOf worker))).map fun shared =>
        { s with shared := shared }.goto worker .inCall
  | .inCall =>
      match s.shared.thread worker with
      | .returning _ ret =>
          (threadStep (.trying primitive) s.shared (.return_ worker)).map fun shared =>
            { s with shared := shared }.tryReturned worker ret
      | _ => none
  | .error val => some { s.goto worker .testCancel with expected := val + 1 }
  | .sleeps =>
      if s.pending worker then none
      else some (s.goto worker (if worker = qmonitor then .calls else .testCancel))
  | .notCreated | .terminated => none

def tryInsideStep (primitive : Primitive) (s : Process) (action : Action 3) : Option Process :=
  match action with
  | .call _ _ | .return_ _ => none
  | action =>
      if s.place action.actor = .inCall then
        (threadStep (.trying primitive) s.shared action).map fun shared =>
          { s with shared := shared }
      else none

/-- A pending request takes effect: at `pthread_testcancel`, in `sleep` and
`usleep`, in `printf` wherever it stands, and in `sem_wait`. -/
def tryCancelStep (primitive : Primitive) (s : Process) (worker : Worker) : Option Process :=
  if s.pending worker then
    match s.place worker with
    | .hello | .setCpu | .testCancel | .error _ | .sleeps => some (s.goto worker .terminated)
    | .inCall =>
        match s.shared.thread worker with
        | .inside _ _ .printLine | .inside _ _ .addNoMemory => some (s.goto worker .terminated)
        | .acquiring _ => if primitive = .sem then some (s.goto worker .terminated) else none
        | _ => none
    | .notCreated | .calls | .terminated => none
  else none

def tryStep (primitive : Primitive) (s : Process) (action : ProcessAction) : Option Process :=
  if s.main = .exited ∨ s.shared.ended.isSome then none
  else
    match action with
    | .main err => s.mainStep err
    | .outside worker => s.tryOutsideStep primitive worker
    | .inside action => s.tryInsideStep primitive action
    | .cancelled worker => s.tryCancelStep primitive worker

def tryStart (primitive : Primitive) : Process :=
  { start with shared := State.start (.trying primitive) 3 1000 }

end Process

def tryThreads (primitive : Primitive) : System Process ProcessAction :=
  ⟨Process.tryStart primitive, Process.tryStep primitive⟩

/-- `queue_destroy` has not yet cancelled the monitor. -/
def MainPoint.beforeDestroy : MainPoint → Bool
  | .joinMonitor | .exited => false
  | _ => true

/-- The holder of the lock is a live thread, and main joins nobody who waits
for a lock whose holder has terminated. -/
structure LockSafe (primitive : Primitive) (s : Process) : Prop where
  alive : ∀ worker, (s.shared.thread worker).owns = true → s.place worker ≠ .terminated
  held : s.shared.lock ≠ primitive.init 3 →
    ∃ worker, (s.shared.thread worker).owns = true ∧ s.place worker = .inCall
  joins : ∀ worker owner, s.main.joins = some worker → s.place worker = .inCall →
    (s.shared.thread worker).wantsLock = true → (s.shared.thread owner).owns = true →
    s.place owner ≠ .terminated

def SafeBeforeDestroy (primitive : Primitive) (s : Process) : Prop :=
  s.main.beforeDestroy = true → LockSafe primitive s

/-- No request takes effect in the `printf` behind a `malloc` that failed. -/
def NotAfterMalloc (s : Process) : ProcessAction → Prop
  | .cancelled worker => s.main.beforeDestroy = true → s.place worker = .inCall →
      ∀ call waited, s.shared.thread worker ≠ .inside call waited .addNoMemory
  | _ => True

/-! ## What a step can do -/

/-- The calls a worker makes. -/
def Makes (worker : Worker) : Call → Prop
  | .get _ => worker = reader
  | .add _ => worker = writer
  | .printStats => worker = qmonitor

inductive TryEffect (primitive : Primitive) (s : Process) : ProcessAction → Process → Prop where
  | main {err : Bool} {next : Process} (sameShared : next.shared = s.shared)
      (outside : ∀ worker, next.place worker ≠ .inCall → s.place worker ≠ .inCall)
      (onward : next.main.beforeDestroy = true → s.main.beforeDestroy = true ∧
        next.pending qmonitor = s.pending qmonitor) :
      TryEffect primitive s (.main err) next
  | moves {action : ProcessAction} {next : Process} (sameShared : next.shared = s.shared)
      (outside : ∀ worker, next.place worker ≠ .inCall → s.place worker ≠ .inCall)
      (sameMain : next.main = s.main) (samePending : next.pending = s.pending) :
      TryEffect primitive s action next
  | shared {action : ProcessAction} {inner : Action 3} {place : Place} {next : Process}
      (uncancelled : ∀ worker, action ≠ .cancelled worker)
      (ran : threadStep (.trying primitive) s.shared inner = some next.shared)
      (moved : next.place = Function.update s.place inner.actor place)
      (leaves : place ≠ .inCall → (next.shared.thread inner.actor).owns = false)
      (makes : ∀ tid call, inner = .call tid call → Makes tid call)
      (sameMain : next.main = s.main) (samePending : next.pending = s.pending) :
      TryEffect primitive s action next
  | dies {worker : Worker} {next : Process} (pending : s.pending worker = true)
      (before : s.place worker = .inCall) (isNext : next = s.goto worker .terminated)
      (point : (∃ call waited, s.shared.thread worker = .inside call waited .printLine) ∨
        (∃ call waited, s.shared.thread worker = .inside call waited .addNoMemory) ∨
        ∃ call, s.shared.thread worker = .acquiring call) :
      TryEffect primitive s (.cancelled worker) next

section Effects

variable {primitive : Primitive} {s next : Process}

theorem goto_outside {worker : Worker} {place : Place} (before : s.place worker ≠ .inCall)
    (other : Worker) (outside : (s.goto worker place).place other ≠ .inCall) :
    s.place other ≠ .inCall := by
  by_cases here : other = worker
  · rw [here]
    exact before
  · simpa [Process.goto, Function.update_of_ne here] using outside

theorem tryMain_effect {err : Bool} (stepped : s.mainStep err = some next) :
    TryEffect primitive s (.main err) next := by
  have created : ∀ worker main, s.main.beforeDestroy = true →
      s.create worker main = some next → TryEffect primitive s (.main err) next := by
    intro worker main before ran
    unfold Process.create at ran
    split at ran
    · rename_i fresh
      cases ran
      exact .main rfl (goto_outside (by rw [fresh]; simp)) fun _ => ⟨before, rfl⟩
    · cases ran
  have joined : ∀ worker main, (main.beforeDestroy = true → s.main.beforeDestroy = true) →
      s.join worker main = some next → TryEffect primitive s (.main err) next := by
    intro worker main before ran
    unfold Process.join at ran
    split at ran
    · cases ran
      exact .main rfl (fun _ => id) fun after => ⟨before after, rfl⟩
    · cases ran
  have exits : some { s with main := .exited } = some next →
      TryEffect primitive s (.main err) next := by
    intro ran
    cases ran
    exact .main rfl (fun _ => id) fun after => by cases after
  have cancels : ∀ worker main, worker ≠ qmonitor → s.main.beforeDestroy = true →
      some (s.cancel worker err main) = some next → TryEffect primitive s (.main err) next := by
    intro worker main other before ran
    cases ran
    refine .main rfl (fun _ => id) fun _ => ⟨before, ?_⟩
    simp only [Process.cancel]
    split
    · rfl
    · exact Function.update_of_ne (Ne.symm other) _ _
  unfold Process.mainStep at stepped
  split at stepped
  case h_1 here =>
    split at stepped
    · exact exits stepped
    · exact created _ _ (by rw [here]; rfl) stepped
  case h_2 here =>
    split at stepped
    · exact exits stepped
    · exact created _ _ (by rw [here]; rfl) stepped
  case h_3 here =>
    split at stepped
    · exact exits stepped
    · exact created _ _ (by rw [here]; rfl) stepped
  case h_4 here =>
    cases stepped
    exact .main rfl (fun _ => id) fun _ => ⟨by rw [here]; rfl, rfl⟩
  case h_5 here => exact cancels _ _ (by decide) (by rw [here]; rfl) stepped
  case h_6 here => exact cancels _ _ (by decide) (by rw [here]; rfl) stepped
  case h_7 here =>
    split at stepped
    · exact exits stepped
    · exact joined _ _ (fun _ => by rw [here]; rfl) stepped
  case h_8 here =>
    split at stepped
    · exact exits stepped
    · exact joined _ _ (fun _ => by rw [here]; rfl) stepped
  case h_9 here =>
    cases stepped
    exact .main rfl (fun _ => id) fun after => by cases after
  case h_10 here =>
    split at stepped
    · exact exits stepped
    · exact joined _ _ (fun after => by cases after) stepped
  case h_11 => cases stepped

theorem tryReturned_place (s : Process) (worker : Worker) (ret : Ret) :
    (s.tryReturned worker ret).shared = s.shared ∧ (s.tryReturned worker ret).main = s.main ∧
      (s.tryReturned worker ret).pending = s.pending ∧
      ∃ place, (s.tryReturned worker ret).place = Function.update s.place worker place := by
  cases ret with
  | got ok val =>
      simp only [Process.tryReturned, Process.returned]
      split
      · exact ⟨rfl, rfl, rfl, .testCancel, rfl⟩
      · split
        · exact ⟨rfl, rfl, rfl, .error val, rfl⟩
        · exact ⟨rfl, rfl, rfl, .testCancel, rfl⟩
  | added ok =>
      simp only [Process.tryReturned]
      split
      · exact ⟨rfl, rfl, rfl, .testCancel, rfl⟩
      · exact ⟨rfl, rfl, rfl, .sleeps, rfl⟩
  | printed line => exact ⟨rfl, rfl, rfl, .sleeps, rfl⟩

theorem callOf_makes (s : Process) : ∀ worker, Makes worker (s.callOf worker)
  | reader => rfl
  | writer => rfl
  | qmonitor => rfl

theorem returned_owns {shared after : State 3} {worker : Worker}
    (stepped : threadStep (.trying primitive) shared (.return_ worker) = some after) :
    (after.thread worker).owns = false := by
  obtain ⟨_, move⟩ := threadStep_move stepped
  cases move with
  | return_ here => simp [State.setThread, Thread.owns]

theorem tryOutside_effect {worker : Worker}
    (stepped : s.tryOutsideStep primitive worker = some next) :
    TryEffect primitive s (.outside worker) next := by
  have goes : ∀ place, s.place worker ≠ .inCall → some (s.goto worker place) = some next →
      TryEffect primitive s (.outside worker) next := by
    intro place before ran
    cases ran
    exact .moves rfl (goto_outside before) rfl rfl
  unfold Process.tryOutsideStep at stepped
  split at stepped
  case h_1 here => exact goes _ (by rw [here]; simp) stepped
  case h_2 here => exact goes _ (by rw [here]; simp) stepped
  case h_3 here =>
    split at stepped
    · cases stepped
    · exact goes _ (by rw [here]; simp) stepped
  case h_4 here =>
    obtain ⟨shared, called, isNext⟩ := Option.map_eq_some_iff.mp stepped
    subst isNext
    refine .shared (by simp) called rfl (fun outside => absurd rfl outside) ?_ rfl rfl
    rintro tid call ⟨⟩
    exact callOf_makes s worker
  case h_5 here =>
    split at stepped
    · rename_i call ret returning
      obtain ⟨shared, ran, isNext⟩ := Option.map_eq_some_iff.mp stepped
      subst isNext
      obtain ⟨sameShared, sameMain, samePending, place, moved⟩ :=
        tryReturned_place { s with shared := shared } worker ret
      have returns : threadStep (.trying primitive) s.shared (.return_ worker) =
          some ({ s with shared := shared }.tryReturned worker ret).shared := by
        rw [sameShared]
        exact ran
      refine .shared (by simp) returns moved ?_ (by simp) sameMain samePending
      intro _
      rw [sameShared]
      exact returned_owns ran
    · cases stepped
  case h_6 val here =>
    cases stepped
    exact .moves rfl (goto_outside (by rw [here]; simp)) rfl rfl
  case h_7 here =>
    split at stepped
    · cases stepped
    · exact goes _ (by rw [here]; simp) stepped
  case h_8 => cases stepped
  case h_9 => cases stepped

theorem tryInside_effect {action : Action 3}
    (stepped : s.tryInsideStep primitive action = some next) :
    TryEffect primitive s (.inside action) next := by
  unfold Process.tryInsideStep at stepped
  split at stepped
  · cases stepped
  · cases stepped
  · rename_i notCall notReturn
    split at stepped
    · rename_i here
      obtain ⟨shared, ran, isNext⟩ := Option.map_eq_some_iff.mp stepped
      subst isNext
      have samePlace : s.place = Function.update s.place action.actor .inCall := by
        rw [← here, Function.update_eq_self]
      refine .shared (by simp) ran samePlace (fun outside => absurd rfl outside) ?_ rfl rfl
      intro tid call isCall
      exact absurd isCall (notCall tid call)
    · cases stepped

theorem tryCancel_effect {worker : Worker}
    (stepped : s.tryCancelStep primitive worker = some next) :
    TryEffect primitive s (.cancelled worker) next := by
  have ends : s.place worker ≠ .inCall → some (s.goto worker .terminated) = some next →
      TryEffect primitive s (.cancelled worker) next := by
    intro before ran
    cases ran
    exact .moves rfl (goto_outside before) rfl rfl
  unfold Process.tryCancelStep at stepped
  split at stepped
  · rename_i pending
    split at stepped
    case h_6 here =>
      split at stepped
      · rename_i call waited inside
        cases stepped
        exact .dies pending here rfl (Or.inl ⟨call, waited, inside⟩)
      · rename_i call waited inside
        cases stepped
        exact .dies pending here rfl (Or.inr (Or.inl ⟨call, waited, inside⟩))
      · rename_i call acquiring
        split at stepped
        · cases stepped
          exact .dies pending here rfl (Or.inr (Or.inr ⟨call, acquiring⟩))
        · cases stepped
      · cases stepped
    case h_7 | h_8 | h_9 => cases stepped
    all_goals
      rename_i here
      exact ends (by rw [here]; simp) stepped
  · cases stepped

theorem tryStep_effect {action : ProcessAction} (stepped : s.tryStep primitive action = some next) :
    TryEffect primitive s action next := by
  unfold Process.tryStep at stepped
  split at stepped
  · cases stepped
  · cases action with
    | main err => exact tryMain_effect stepped
    | outside worker => exact tryOutside_effect stepped
    | inside action => exact tryInside_effect stepped
    | cancelled worker => exact tryCancel_effect stepped

end Effects

/-! ## The holder of the lock -/

/-- Up to the end of the run of main: who has the lock is in a call of its own,
and the monitor is not cancelled. -/
structure TryOrderly (primitive : Primitive) (s : Process) : Prop where
  sections : Sections (.trying primitive) s.shared
  outside : ∀ worker, s.place worker ≠ .inCall → (s.shared.thread worker).owns = false
  makes : ∀ worker call, (s.shared.thread worker).current = some call → Makes worker call
  monitor : s.pending qmonitor = false

theorem move_owns {v : Variant} {shared after : State 3} {action : Action 3} {worker : Worker}
    (move : Move v shared action after) (elsewhere : worker ≠ action.actor)
    (notOwner : (shared.thread worker).owns = false) : (after.thread worker).owns = false := by
  cases move with
  | fault here ran => exact notOwner
  | @signal tid other call sleeper ret here asleep waits =>
      have notTid : worker ≠ tid := elsewhere
      simp only [State.setThread, Function.update_of_ne notTid]
      by_cases isOther : worker = other
      · rw [isOther, Function.update_self]
        rfl
      · rw [Function.update_of_ne isOther]
        exact notOwner
  | call | acquire | reacquire | goto | blocks | gives | done | wait | wake | signalNobody
  | release | return_ =>
      simp only [State.setThread, State.completes, State.settled, Action.actor] at elsewhere ⊢
      rw [Function.update_of_ne elsewhere]
      exact notOwner

section Invariant

variable {primitive : Primitive} {s next : Process}

theorem move_makes {shared after : State 3} {action : Action 3}
    (move : Move (.trying primitive) shared action after)
    (called : ∀ tid call, action = .call tid call → Makes tid call)
    (makes : ∀ worker call, (shared.thread worker).current = some call → Makes worker call)
    (worker : Worker) (call : Call) (current : (after.thread worker).current = some call) :
    Makes worker call := by
  by_cases isCall : ∃ tid call, action = .call tid call
  · obtain ⟨tid, other, rfl⟩ := isCall
    rw [call_thread move] at current
    by_cases here : worker = tid
    · rw [here, Function.update_self] at current
      cases current
      rw [here]
      exact called tid call rfl
    · rw [Function.update_of_ne here] at current
      exact makes worker call current
  · simp only [not_exists] at isCall
    exact makes worker call (move_current move isCall worker call current)

/-- The line of the statistics is printed by the monitor. -/
theorem TryOrderly.prints (orderly : TryOrderly primitive s) {worker : Worker} {call : Call}
    {waited : Bool} (here : s.shared.thread worker = .inside call waited .printLine) :
    worker = qmonitor := by
  obtain ⟨holder, held⟩ := orderly.sections
  have underway := (held.at_holder here rfl).2
  have visits := underway.visits
  have makes := orderly.makes worker call (by rw [here]; rfl)
  cases call with
  | add val => cases visits
  | get val => cases visits
  | printStats => exact makes

/-- Nothing happens in the queue, and nobody gets out of a call. -/
theorem TryOrderly.keeps (orderly : TryOrderly primitive s) (sameShared : next.shared = s.shared)
    (outside : ∀ worker, next.place worker ≠ .inCall → s.place worker ≠ .inCall)
    (samePending : next.pending qmonitor = s.pending qmonitor) : TryOrderly primitive next where
  sections := by
    rw [sameShared]
    exact orderly.sections
  outside worker notInCall := by
    rw [sameShared]
    exact orderly.outside worker (outside worker notInCall)
  makes := by
    rw [sameShared]
    exact orderly.makes
  monitor := samePending.trans orderly.monitor

theorem tryOrderly_step {action : ProcessAction}
    (orderly : s.main.beforeDestroy = true → TryOrderly primitive s)
    (guarded : NotAfterMalloc s action) (stepped : s.tryStep primitive action = some next)
    (before : next.main.beforeDestroy = true) : TryOrderly primitive next := by
  cases tryStep_effect stepped with
  | main sameShared outside onward =>
      obtain ⟨earlier, samePending⟩ := onward before
      exact (orderly earlier).keeps sameShared outside samePending
  | moves sameShared outside sameMain samePending =>
      have sofar := orderly (by rw [← sameMain]; exact before)
      exact sofar.keeps sameShared outside (congrFun samePending qmonitor)
  | @shared _ inner place _ uncancelled ran moved leaves makes sameMain samePending =>
      have sofar := orderly (by rw [← sameMain]; exact before)
      have move := (threadStep_move ran).2
      refine ⟨step_sections sofar.sections ran, ?_, move_makes move makes sofar.makes,
        by rw [samePending]; exact sofar.monitor⟩
      intro worker notInCall
      rw [moved] at notInCall
      by_cases here : worker = inner.actor
      · rw [here, Function.update_self] at notInCall
        rw [here]
        exact leaves notInCall
      · rw [Function.update_of_ne here] at notInCall
        exact move_owns move here (sofar.outside worker notInCall)
  | @dies worker _ pending inCall isNext point =>
      subst isNext
      have sofar := orderly before
      refine ⟨sofar.sections, ?_, sofar.makes, sofar.monitor⟩
      intro other notInCall
      by_cases here : other = worker
      · subst here
        rcases point with ⟨call, waited, printing⟩ | ⟨call, waited, noMemory⟩ | ⟨call, acquiring⟩
        · rw [sofar.prints printing, sofar.monitor] at pending
          cases pending
        · exact absurd noMemory (guarded before inCall call waited)
        · rw [show (s.goto other .terminated).shared = s.shared from rfl, acquiring]
          rfl
      · refine sofar.outside other ?_
        simpa [Process.goto, Function.update_of_ne here] using notInCall

theorem TryOrderly.safe (orderly : TryOrderly primitive s) : LockSafe primitive s := by
  have inCall : ∀ worker, (s.shared.thread worker).owns = true → s.place worker = .inCall := by
    intro worker owns
    by_contra outside
    rw [orderly.outside worker outside] at owns
    cases owns
  have alive : ∀ worker, (s.shared.thread worker).owns = true → s.place worker ≠ .terminated := by
    intro worker owns terminated
    rw [inCall worker owns] at terminated
    cases terminated
  refine ⟨alive, ?_, fun _ owner _ _ _ => alive owner⟩
  intro locked
  obtain ⟨holder, held⟩ := orderly.sections
  cases holder with
  | none =>
      rw [held.lock] at locked
      exact absurd (Lock.heldBy_none primitive) locked
  | some worker =>
      have owns := (held.owner worker).mpr rfl
      exact ⟨worker, owns, inCall worker owns⟩

/-- The request leaves the lock with a thread that has terminated. -/
theorem afterMalloc_breaks {worker : Worker} {call : Call} {waited : Bool}
    (before : s.main.beforeDestroy = true) (inCall : s.place worker = .inCall)
    (noMemory : s.shared.thread worker = .inside call waited .addNoMemory)
    (stepped : s.tryStep primitive (.cancelled worker) = some next) :
    ¬ SafeBeforeDestroy primitive next := by
  have isNext : next = s.goto worker .terminated := by
    unfold Process.tryStep at stepped
    split at stepped
    · cases stepped
    · simp only [Process.tryCancelStep, inCall, noMemory] at stepped
      split at stepped
      · exact (Option.some.inj stepped).symm
      · cases stepped
  subst isNext
  intro safe
  refine (safe before).alive worker ?_ (Function.update_self worker _ _)
  rw [show (s.goto worker .terminated).shared = s.shared from rfl, noMemory]
  rfl

theorem start_tryOrderly : TryOrderly primitive (Process.tryStart primitive) := by
  refine ⟨start_sections (.trying primitive) 3 1000, fun _ _ => rfl, ?_, rfl⟩
  intro worker call current
  cases current

end Invariant

/-- Until `queue_destroy` cancels the monitor the lock is safe, exactly when no
request takes effect behind a `malloc` that failed. -/
theorem safeBeforeDestroy_iff (primitive : Primitive) (actions : List ProcessAction) :
    (tryThreads primitive).Always (SafeBeforeDestroy primitive) (Process.tryStart primitive)
        actions ↔
      (tryThreads primitive).Meets NotAfterMalloc (Process.tryStart primitive) actions := by
  refine System.always_iff_meets NotAfterMalloc
    (fun s => s.main.beforeDestroy = true → TryOrderly primitive s) (SafeBeforeDestroy primitive)
    ?_ ?_ ?_ (Process.tryStart primitive) actions (fun _ => start_tryOrderly)
  · intro s orderly before
    exact (orderly before).safe
  · intro s action next orderly guarded stepped before
    exact tryOrderly_step orderly guarded stepped before
  · intro s action next orderly stepped safe
    cases action with
    | cancelled worker =>
        intro before inCall call waited noMemory
        exact afterMalloc_breaks before inCall noMemory stepped safe
    | main | outside | inside => trivial

/-- The writer finds no memory, and its request takes effect in the `printf`
that says so, with the mutex locked; main joins the reader, which waits for it. -/
def cancelledNoMemory : List ProcessAction :=
  List.replicate 3 (.main false) ++ List.replicate 4 (.outside writer) ++
    [.inside (.acquire writer)] ++ List.replicate 4 (.inside (.statement writer none)) ++
    List.replicate 4 (.outside reader) ++ List.replicate 3 (.main false) ++ [.cancelled writer]

theorem noMemory_wedges_join :
    ¬ (tryThreads .mutex).Always (SafeBeforeDestroy .mutex) (Process.tryStart .mutex)
      cancelledNoMemory := by
  intro always
  have safe := always.along cancelledNoMemory [] rfl rfl
  exact safe.joins reader writer rfl rfl rfl rfl rfl

end OsLabs.Sync
