import Mathlib.Data.Fin.VecNotation
import OsLabs.Castom.Mutex

/-!
# Sleepers of the hand-made mutex

`FUTEX_WAIT` expects 0, the value of a clear flag, so a thread of `thread_func`
falls asleep only after the mutex was released, when the wake may be over.  A
sleeper can rely on a thread that is neither finished nor asleep: that thread
has a `FUTEX_WAKE` before it.
-/

set_option autoImplicit false

namespace OsLabs.Castom

open OsLabs.Transition

variable {n : Nat}

/-- The calls of `thread_func` with this many rounds. -/
def threadFunc : Nat → List Call
  | 0 => []
  | rounds + 1 => .lock :: .unlock :: threadFunc rounds

/-- Every thread runs `thread_func`; no futex call fails. -/
def counting (tids : Tids n) (rounds : Fin n → Nat) : System (State n) (Action n) :=
  (mutexThreads tids fun thread => threadFunc (rounds thread)).restrict fun action => !action.err

namespace State

/-- `thread_func` has returned. -/
def Finished (s : State n) (thread : Fin n) : Prop :=
  (∃ holds, s.pc thread = .ready holds) ∧ s.todo thread = []

def Asleep (s : State n) (thread : Fin n) : Prop := ∃ holds, s.pc thread = .asleep holds

/-- The flag is clear and a thread sleeps that nobody is left to wake. -/
def Stranded (s : State n) : Prop :=
  s.lock = false ∧ ∃ sleeper, s.Asleep sleeper ∧
    ∀ other, other ≠ sleeper → s.Finished other ∨ s.Asleep other

end State

/-- A thread that `FUTEX_WAIT` puts to sleep leaves another one that is neither
finished nor asleep. -/
def LeavesWaker (s : State n) (action : Action n) : Prop :=
  ∀ holds, s.pc action.thread = .futexWait holds → s.lock = false →
    ∃ other, other ≠ action.thread ∧ ¬ s.Finished other ∧ ¬ s.Asleep other

/-! ## Rounds -/

/-- Between the call of `mutex_lock` and the call of `mutex_unlock`. -/
def Pc.inRound : Pc → Bool
  | .ready holds => holds
  | .testAndSet _ | .futexWait _ | .asleep _ | .writeTid | .load | .store _ => true
  | .readTid _ | .clearTid | .clearFlag | .futexWake => false

/-- The calls of `thread_func` with this many rounds to begin. -/
def callsLeft (inRound : Bool) (rounds : Nat) : List Call :=
  if inRound then .unlock :: threadFunc rounds else threadFunc rounds

/-- Locking and unlocking take turns. -/
theorem callsLeft_next {inRound : Bool} {rounds : Nat} {call : Call} {rest : List Call}
    (isNext : callsLeft inRound rounds = call :: rest) :
    (inRound = true ∧ call = .unlock ∧ rest = callsLeft false rounds) ∨
      (inRound = false ∧ call = .lock ∧ ∃ fewer, rest = callsLeft true fewer) := by
  cases inRound with
  | true =>
      cases isNext
      exact Or.inl ⟨rfl, rfl, rfl⟩
  | false =>
      cases rounds with
      | zero => cases isNext
      | succ rounds =>
          cases isNext
          exact Or.inr ⟨rfl, rfl, rounds, rfl⟩

structure Waking (s : State n) : Prop where
  rounds : ∀ thread, ∃ rounds, s.todo thread = callsLeft (s.pc thread).inRound rounds
  waker : ∀ sleeper, s.Asleep sleeper → ∃ other, ¬ s.Finished other ∧ ¬ s.Asleep other

section Steps

variable {s next : State n} {thread : Fin n} {pc : Pc}

theorem Waking.keeps_rounds (waking : Waking s) (isNext : next.pc = Function.update s.pc thread pc)
    (sameTodo : next.todo = s.todo) (same : pc.inRound = (s.pc thread).inRound) :
    ∀ other, ∃ rounds, next.todo other = callsLeft (next.pc other).inRound rounds := by
  intro other
  obtain ⟨rounds, isTodo⟩ := waking.rounds other
  refine ⟨rounds, ?_⟩
  rw [sameTodo, isTodo, isNext]
  by_cases here : other = thread
  · rw [here, Function.update_self, same]
  · rw [Function.update_of_ne here]

/-- A thread in the middle of a call is a waker. -/
theorem in_call_wakes (isNext : next.pc thread = pc) (notReady : ∀ holds, pc ≠ .ready holds)
    (notAsleep : ∀ holds, pc ≠ .asleep holds) :
    ¬ next.Finished thread ∧ ¬ next.Asleep thread := by
  constructor
  · intro assumed
    obtain ⟨⟨holds, isReady⟩, _⟩ := assumed
    rw [isNext] at isReady
    exact notReady holds isReady
  · intro assumed
    obtain ⟨holds, isAsleep⟩ := assumed
    rw [isNext] at isAsleep
    exact notAsleep holds isAsleep

/-- The thread that moves stays in a call. -/
theorem Waking.moves (waking : Waking s) (isNext : next.pc = Function.update s.pc thread pc)
    (sameTodo : next.todo = s.todo) (same : pc.inRound = (s.pc thread).inRound)
    (notReady : ∀ holds, pc ≠ .ready holds) (notAsleep : ∀ holds, pc ≠ .asleep holds) :
    Waking next :=
  ⟨waking.keeps_rounds isNext sameTodo same, fun _ _ =>
    ⟨thread, in_call_wakes (by rw [isNext, Function.update_self]) notReady notAsleep⟩⟩

end Steps

theorem move_waking {tids : Tids n} {s next : State n} {action : Action n} (waking : Waking s)
    (guarded : LeavesWaker s action) (move : Move tids s action next) : Waking next := by
  cases move with
  | @calls holds call rest here isNext =>
      obtain ⟨rounds, isTodo⟩ := waking.rounds action.thread
      refine ⟨?_, fun _ _ => ⟨action.thread, ?_⟩⟩
      · intro other
        by_cases isThread : other = action.thread
        · simp only [State.goto, isThread, Function.update_self]
          rw [isNext, here] at isTodo
          rcases callsLeft_next isTodo.symm with ⟨_, rfl, isRest⟩ | ⟨_, rfl, fewer, isRest⟩
          · exact ⟨rounds, isRest⟩
          · exact ⟨fewer, isRest⟩
        · simp only [State.goto, Function.update_of_ne isThread]
          exact waking.rounds other
      · have entered : (s.goto action.thread (call.entry holds)).pc action.thread =
            call.entry holds := by
          simp [State.goto]
        refine in_call_wakes entered ?_ ?_ <;> cases call <;> simp [Call.entry]
  | busy here taken | again here taken | returns here | writesTid here | loads here
  | passes here isOwn | clearsTid here | clearsFlag here =>
      exact waking.moves rfl rfl (by rw [here]; rfl) (by simp) (by simp)
  | takes here free => exact waking.moves rfl rfl (by rw [here]; rfl) (by simp) (by simp)
  | sleeps here free =>
      refine ⟨waking.keeps_rounds rfl rfl (by rw [here]; rfl), fun _ _ => ?_⟩
      obtain ⟨other, elsewhere, notFinished, notAsleep⟩ := guarded _ here free
      refine ⟨other, ?_, ?_⟩
      · simpa [State.Finished, State.goto, Function.update_of_ne elsewhere] using notFinished
      · simpa [State.Asleep, State.goto, Function.update_of_ne elsewhere] using notAsleep
  | @stores value here =>
      refine ⟨waking.keeps_rounds rfl rfl (by rw [here]; rfl), fun _ _ => ⟨action.thread, ?_, ?_⟩⟩
      · -- the thread has its `mutex_unlock` still to call
        obtain ⟨rounds, isTodo⟩ := waking.rounds action.thread
        intro assumed
        obtain ⟨_, nothing⟩ := assumed
        rw [here] at isTodo
        rw [show s.todo action.thread = [] from nothing] at isTodo
        cases isTodo
      · intro assumed
        obtain ⟨holds, isAsleep⟩ := assumed
        simp [State.goto] at isAsleep
  | @wakes other holds here asleep =>
      have different : other ≠ action.thread := by
        intro same
        rw [same, here] at asleep
        cases asleep
      have woken : Waking (s.goto other (.testAndSet holds)) :=
        waking.moves rfl rfl (by rw [asleep]; rfl) (by simp) (by simp)
      have still : (s.goto other (.testAndSet holds)).pc action.thread = .futexWake := by
        simp [State.goto, Function.update_of_ne different.symm, here]
      refine ⟨woken.keeps_rounds rfl rfl (by rw [still]; rfl), fun _ _ => ⟨other, ?_⟩⟩
      have isWoken :
          ((s.goto other (.testAndSet holds)).goto action.thread (.ready false)).pc other =
            .testAndSet holds := by
        simp [State.goto, Function.update_of_ne different]
      exact in_call_wakes isWoken (by simp) (by simp)
  | wakesNobody here nobody =>
      refine ⟨waking.keeps_rounds rfl rfl (by rw [here]; rfl), ?_⟩
      rintro sleeper ⟨holds, isAsleep⟩
      by_cases isThread : sleeper = action.thread
      · simp [State.goto, isThread] at isAsleep
      · simp only [State.goto, Function.update_of_ne isThread] at isAsleep
        have notAsleep := nobody sleeper
        rw [isAsleep] at notAsleep
        cases notAsleep
  | aborts => exact ⟨waking.rounds, waking.waker⟩

theorem start_waking (rounds : Fin n → Nat) :
    Waking (State.start fun thread => threadFunc (rounds thread)) where
  rounds thread := ⟨rounds thread, rfl⟩
  waker sleeper isAsleep := by
    obtain ⟨holds, isAsleep⟩ := isAsleep
    cases isAsleep

theorem Waking.not_stranded {s : State n} (waking : Waking s) : ¬ s.Stranded := by
  intro assumed
  obtain ⟨_, sleeper, isAsleep, others⟩ := assumed
  obtain ⟨other, notFinished, notAsleep⟩ := waking.waker sleeper isAsleep
  have elsewhere : other ≠ sleeper := by
    intro same
    subst same
    exact notAsleep isAsleep
  rcases others other elsewhere with finished | asleep
  · exact notFinished finished
  · exact notAsleep asleep

/-- Where `FUTEX_WAIT` puts the last waker to sleep, it is stranded. -/
theorem sleep_strands {tids : Tids n} {s next : State n} {action : Action n}
    (noError : action.err = false) (stepped : step tids s action = some next)
    (safe : ¬ next.Stranded) : LeavesWaker s action := by
  intro holds here free
  by_contra nobody
  have isNext : next = s.goto action.thread (.asleep holds) := by
    unfold step at stepped
    split at stepped
    · cases stepped
    · simpa [here, noError, free] using stepped.symm
  refine safe ⟨by rw [isNext]; exact free, action.thread, ⟨holds, by simp [isNext, State.goto]⟩, ?_⟩
  intro other elsewhere
  by_contra awake
  rw [not_or] at awake
  refine nobody ⟨other, elsewhere, ?_, ?_⟩
  · simpa [isNext, State.Finished, State.goto, Function.update_of_ne elsewhere] using awake.1
  · simpa [isNext, State.Asleep, State.goto, Function.update_of_ne elsewhere] using awake.2

/-- No sleeper is stranded along a run, exactly when every thread that falls
asleep leaves a waker. -/
theorem not_stranded_iff (tids : Tids n) (rounds : Fin n → Nat) (actions : List (Action n)) :
    (counting tids rounds).Always (fun s => ¬ s.Stranded)
        (State.start fun thread => threadFunc (rounds thread)) actions ↔
      (counting tids rounds).Meets LeavesWaker
        (State.start fun thread => threadFunc (rounds thread)) actions := by
  refine System.always_iff_meets LeavesWaker Waking _ (fun _ => Waking.not_stranded) ?_ ?_ _
    actions (start_waking rounds)
  · intro s action next waking guarded stepped
    exact move_waking waking guarded (step_move (System.restrict_step _ _ _ _ _ stepped).2)
  · intro s action next _ stepped safe
    obtain ⟨allowed, stepped⟩ := System.restrict_step _ _ _ _ _ stepped
    exact sleep_strands (by simpa using allowed) stepped safe

def twoTids : Tids 2 where
  tid := ![1, 2]
  positive := by decide
  distinct := by decide

/-- The second thread finds the mutex taken, and calls `FUTEX_WAIT` when the
first one has released it and finished. -/
def lateWait : List (Action 2) :=
  List.replicate 2 ⟨0, false, none⟩ ++ List.replicate 2 ⟨1, false, none⟩ ++
    List.replicate 8 ⟨0, false, none⟩ ++ [⟨1, false, none⟩]

theorem stranded_lateWait :
    ¬ (counting twoTids fun _ => 1).Always (fun s => ¬ s.Stranded)
      (State.start fun _ => threadFunc 1) lateWait := by
  intro always
  refine always.along lateWait [] rfl ⟨rfl, 1, ⟨false, rfl⟩, ?_⟩
  intro other elsewhere
  have isFirst : other = 0 := by omega
  subst isFirst
  exact Or.inl ⟨⟨false, rfl⟩, rfl⟩

end OsLabs.Castom
