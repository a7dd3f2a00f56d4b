import OsLabs.SwapList.Deadlock

/-!
# Shutdown of the walkers

Main cancels the threads and joins them in the order in which it created them.
A request is deferred: a walker meets it in `pthread_testcancel`, at the top of
its inner loop, and `print_stat` in `sleep` and in the `printf` between its
spinlocks.
-/

set_option autoImplicit false

namespace OsLabs.SwapList

open OsLabs.Exclusive OsLabs.Transition

variable {n : Nat}

/-- Main, with the threads it still has to cancel or to join. -/
inductive MainPoint (n : Nat) where
  | sleep
  | cancel (threads : List (Fin n))
  | join (threads : List (Fin n))
  | exited
  deriving DecidableEq

/-- The thread that main waits for. -/
def MainPoint.joins : MainPoint n → Option (Fin n)
  | .join threads => threads.head?
  | _ => none

structure Process (n : Nat) where
  walkers : State n
  pending : Fin n → Bool
  terminated : Fin n → Bool
  main : MainPoint n

/-- `main` comes with the error its call reports, if any. -/
inductive ProcessAction (n : Nat) where
  | main (err : Bool)
  | walker (action : Action n)
  | cancelled (thread : Fin n)

/-- The next statement is `pthread_testcancel` or `sleep`. -/
def Pc.testsCancel (list : Storage) : Pc → Bool
  | .test (some current) => ((list.heap current).bind Node.next).isSome
  | .sleep => true
  | _ => false

/-- The next statement is a `printf`, which may be a cancellation point. -/
def Pc.prints : Pc → Bool
  | .print => true
  | _ => false

namespace Process

/-- Errors of `pthread_cancel` are ignored; those of `pthread_join` are printed. -/
def mainStep (threads : List (Fin n)) (s : Process n) (err : Bool) : Option (Process n) :=
  match s.main with
  | .sleep => some { s with main := .cancel threads }
  | .cancel [] => some { s with main := .join threads }
  | .cancel (thread :: rest) =>
      some { s with
        pending := if err then s.pending else Function.update s.pending thread true
        main := .cancel rest }
  | .join [] => some { s with main := .exited }
  | .join (thread :: rest) =>
      if err ∨ s.terminated thread = true then some { s with main := .join rest } else none
  | .exited => none

def walkerStep (routine : Fin n → Routine) (s : Process n) (action : Action n) :
    Option (Process n) :=
  if s.terminated action.thread ∨
      (s.pending action.thread ∧ (s.walkers.pc action.thread).testsCancel s.walkers.list) then none
  else (SwapList.step routine s.walkers action).map fun walkers => { s with walkers := walkers }

/-- A pending request takes effect. -/
def cancelStep (s : Process n) (thread : Fin n) : Option (Process n) :=
  if s.pending thread ∧ s.terminated thread = false ∧
      ((s.walkers.pc thread).testsCancel s.walkers.list ∨ (s.walkers.pc thread).prints) then
    some { s with terminated := Function.update s.terminated thread true }
  else none

def step (routine : Fin n → Routine) (threads : List (Fin n)) (s : Process n)
    (action : ProcessAction n) : Option (Process n) :=
  if s.main = .exited ∨ s.walkers.crashed then none
  else
    match action with
    | .main err => s.mainStep threads err
    | .walker action => s.walkerStep routine action
    | .cancelled thread => s.cancelStep thread

/-- All threads are created. -/
def start (inserts : Inserts) (routine : Fin n → Routine) : Process n where
  walkers := State.start inserts routine
  pending := fun _ => false
  terminated := fun _ => false
  main := .sleep

end Process

/-- The threads in the order of `tid_inc` to `tid_print`. -/
def listRoutines : List Routine :=
  [.incThread, .decThread, .eqThread, .swapThread, .swapThread, .swapThread, .printStat]

def listRoutine (thread : Fin listRoutines.length) : Routine := listRoutines.get thread

def listThreads (inserts : Inserts) :
    System (Process listRoutines.length) (ProcessAction listRoutines.length) :=
  ⟨Process.start inserts listRoutine,
    Process.step listRoutine (List.finRange listRoutines.length)⟩

/-- No thread has terminated with a lock, and main joins nobody who waits for one. -/
structure Unwedged (s : Process n) : Prop where
  clean : ∀ thread lock, s.walkers.owner lock = some thread → s.terminated thread = false
  joins : ∀ thread owner lock, s.main.joins = some thread → s.terminated thread = false →
    (s.walkers.pc thread).Requests s.walkers.list lock → s.walkers.owner lock = some owner →
    s.terminated owner = false

/-- No request takes effect in the `printf` of `print_stat`. -/
def NotPrinting (s : Process n) : ProcessAction n → Prop
  | .cancelled thread => s.walkers.pc thread ≠ .print
  | _ => True

/-! ## What a step can do -/

theorem move_pc {routine : Fin n → Routine} {s next : State n} {action : Action n}
    (move : Move routine s action next) {other : Fin n} (elsewhere : other ≠ action.thread) :
    next.pc other = s.pc other := by
  cases move with
  | crash => rfl
  | _ => exact Function.update_of_ne elsewhere _ _

inductive Effect (routine : Fin n → Routine) (s : Process n) :
    ProcessAction n → Process n → Prop where
  | main {err : Bool} {next : Process n} (sameWalkers : next.walkers = s.walkers)
      (sameTerminated : next.terminated = s.terminated) : Effect routine s (.main err) next
  | walker {action : Action n} {walkers : State n} (alive : s.terminated action.thread = false)
      (stepped : SwapList.step routine s.walkers action = some walkers) :
      Effect routine s (.walker action) { s with walkers := walkers }
  | cancelled {thread : Fin n} (alive : s.terminated thread = false)
      (point : (s.walkers.pc thread).testsCancel s.walkers.list = true ∨
        (s.walkers.pc thread).prints = true) :
      Effect routine s (.cancelled thread)
        { s with terminated := Function.update s.terminated thread true }

section Effects

variable {routine : Fin n → Routine} {threads : List (Fin n)} {s next : Process n}

theorem mainStep_effect {err : Bool} (stepped : s.mainStep threads err = some next) :
    Effect routine s (.main err) next := by
  unfold Process.mainStep at stepped
  split at stepped
  case h_5 =>
    split at stepped
    · cases stepped
      exact .main rfl rfl
    · cases stepped
  case h_6 => cases stepped
  all_goals
    cases stepped
    exact .main rfl rfl

theorem step_effect {action : ProcessAction n} (stepped : s.step routine threads action = some next) :
    Effect routine s action next := by
  unfold Process.step at stepped
  split at stepped
  · cases stepped
  · cases action with
    | main err => exact mainStep_effect stepped
    | walker action =>
        simp only [Process.walkerStep] at stepped
        split at stepped
        · cases stepped
        · rename_i goesOn
          rw [not_or] at goesOn
          obtain ⟨walkers, ran, isNext⟩ := Option.map_eq_some_iff.mp stepped
          subst isNext
          exact .walker (by simpa using goesOn.1) ran
    | cancelled thread =>
        simp only [Process.cancelStep] at stepped
        split at stepped
        · rename_i point
          cases stepped
          exact .cancelled point.2.1 point.2.2
        · cases stepped

end Effects

/-! ## Locks of terminated threads -/

/-- A thread that has terminated stands where it holds no lock. -/
structure Orderly (inserts : Inserts) (s : Process n) : Prop where
  owned : Owned inserts s.walkers
  empty : ∀ thread, s.terminated thread = true → ∀ lock,
    ¬ (s.walkers.pc thread).Holds inserts.list lock

/-- No lock is held at `pthread_testcancel` and in `sleep`. -/
theorem testsCancel_empty {list : Storage} {pc : Pc} (tests : pc.testsCancel list = true)
    (before : Storage) (lock : Lock) : ¬ pc.Holds before lock := by
  intro holds
  cases pc with
  | test current => cases lock <;> cases holds
  | sleep => cases lock <;> cases holds
  | _ => cases tests

section Invariant

variable {inserts : Inserts} {routine : Fin n → Routine} {threads : List (Fin n)}
  {s next : Process n}

theorem orderly_step {action : ProcessAction n} (orderly : Orderly inserts s)
    (guarded : NotPrinting s action) (stepped : s.step routine threads action = some next) :
    Orderly inserts next := by
  cases step_effect stepped with
  | main sameWalkers sameTerminated =>
      refine ⟨by rw [sameWalkers]; exact orderly.owned, ?_⟩
      rw [sameWalkers, sameTerminated]
      exact orderly.empty
  | @walker action walkers alive ran =>
      have move := step_move ran
      refine ⟨owned_step orderly.owned move, ?_⟩
      intro thread terminated
      have elsewhere : thread ≠ action.thread := by
        intro same
        subst same
        rw [alive] at terminated
        cases terminated
      show ∀ lock, ¬ (walkers.pc thread).Holds inserts.list lock
      rw [move_pc move elsewhere]
      exact orderly.empty thread terminated
  | @cancelled thread alive point =>
      refine ⟨orderly.owned, ?_⟩
      intro other terminated lock
      by_cases here : other = thread
      · subst here
        rcases point with tests | prints
        · exact testsCancel_empty tests inserts.list lock
        · refine absurd ?_ guarded
          cases isPrint : s.walkers.pc other <;> rw [isPrint] at prints <;> cases prints
      · change Function.update s.terminated thread true other = true at terminated
        rw [Function.update_of_ne here] at terminated
        exact orderly.empty other terminated lock

theorem Orderly.unwedged (orderly : Orderly inserts s) : Unwedged s := by
  have clean : ∀ thread lock, s.walkers.owner lock = some thread →
      s.terminated thread = false := by
    intro thread lock isOwner
    have holds := (orderly.owned.owners lock thread).mp isOwner
    by_contra terminated
    exact orderly.empty thread (by simpa using terminated) lock holds
  exact ⟨clean, fun _ owner lock _ _ _ isOwner => clean owner lock isOwner⟩

/-- A request that takes effect in the `printf` leaves four spinlocks locked. -/
theorem prints_wedged {thread : Fin n} (orderly : Orderly inserts s)
    (printing : s.walkers.pc thread = .print)
    (stepped : s.step routine threads (.cancelled thread) = some next) : ¬ Unwedged next := by
  intro unwedged
  have isOwner : s.walkers.owner (.stat .inc) = some thread := by
    rw [orderly.owned.owners, printing]
    trivial
  cases step_effect stepped with
  | cancelled alive point =>
      have alive : Function.update s.terminated thread true thread = false :=
        unwedged.clean thread (.stat .inc) isOwner
      rw [Function.update_self] at alive
      cases alive

end Invariant

/-- Nothing is wedged all along a run, exactly when no request takes effect in
the `printf` of `print_stat`. -/
theorem shutdown_unwedged_iff (inserts : Inserts)
    (actions : List (ProcessAction listRoutines.length)) :
    (listThreads inserts).Always Unwedged (Process.start inserts listRoutine) actions ↔
      (listThreads inserts).Meets NotPrinting (Process.start inserts listRoutine) actions := by
  refine System.always_iff_meets NotPrinting (Orderly inserts) Unwedged
    (fun _ => Orderly.unwedged) ?_ ?_ _ actions ⟨start_owned inserts listRoutine, ?_⟩
  · intro s action next orderly guarded stepped
    exact orderly_step orderly guarded stepped
  · intro s action next orderly stepped unwedged
    cases action with
    | cancelled thread =>
        intro printing
        have cancelled : s.step listRoutine (List.finRange listRoutines.length)
            (.cancelled thread) = some next := stepped
        exact prints_wedged orderly printing cancelled unwedged
    | main | walker => trivial
  · intro thread terminated
    cases terminated

/-- `print_stat` is about to print when main cancels all threads. -/
def cancelledPrint (printer : Fin n) : List (ProcessAction n) :=
  List.replicate 5 (.walker ⟨printer, false, fun _ => 0⟩) ++
    List.replicate (n + 2) (.main false) ++ [.cancelled printer]

/-- Whatever the list, there is a run that is wedged. -/
theorem printf_keeps_spinlocks :
    ¬ ∃ inserts, ∀ actions,
      (listThreads inserts).Always Unwedged (Process.start inserts listRoutine) actions := by
  intro assumed
  obtain ⟨inserts, always⟩ := assumed
  have unwedged := (always (cancelledPrint ⟨6, by decide⟩)).along (cancelledPrint ⟨6, by decide⟩)
    [] rfl
  have alive := unwedged.clean ⟨6, by decide⟩ (.stat .inc) rfl
  cases alive

end OsLabs.SwapList
